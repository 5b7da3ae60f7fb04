import TcpCapture.Proofs.Multipath.Turning
import TcpCapture.Proofs.Session.Handling

/-!
# Handling in a turned conversation

A connection whose endpoints come in the opposite order has its two flows changed over, and everything
else that is kept for a direction.  It handles every segment as it would have done otherwise, in the other
direction.

## Main definitions

* `Connection.turn` — a connection between other endpoints, with its directions changed over if they come
  in the opposite order
* `SegmentRecord.turn`, `TeardownReport.turn`, `SegmentReport.turn` — what is told of it
* `Connection.handle_turn` — handling commutes with turning
* `Connection.handle_rename` — handling does not look at the endpoints of a segment

**Forward comes first** in the report of a teardown, whichever direction that is.  Turning a report
therefore changes the order of what was held for either direction, and not only its labels.
-/

namespace TcpCapture

/-! ### What is told -/

/-- The record of a segment in a turned conversation. -/
def SegmentRecord.turn (r : SegmentRecord) (turned : Bool) : SegmentRecord :=
  { r with direction := r.direction.turn turned }

/-- Payload of one direction that no mapping covered, in order. -/
def TeardownReport.unattributedIn (t : TeardownReport) (d : Direction) : List PendingSpan :=
  (t.unattributed.filter (·.1 == d)).map Prod.snd

/-- The teardown of a turned conversation.  Forward payload is listed first. -/
def TeardownReport.turn (t : TeardownReport) (turned : Bool) : TeardownReport :=
  { t with
    unattributed :=
      (t.unattributedIn (.turn .forward turned)).map (.forward, ·) ++
        (t.unattributedIn (.turn .reverse turned)).map (.reverse, ·) }

/-- Of two lists of labelled payload the one with a label is found again. -/
theorem map_filter_labelled (f r : List PendingSpan) (d : Direction) :
    ((f.map (Direction.forward, ·) ++ r.map (Direction.reverse, ·)).filter (·.1 == d)).map Prod.snd =
      (Duplex.mk f r).get d := by
  have labelled (e : Direction) (l : List PendingSpan) :
      ((l.map (e, ·)).filter (·.1 == d)).map Prod.snd = if e = d then l else [] := by
    induction l with
    | nil => exact (ite_self _).symm
    | cons x rest ih =>
        by_cases same : e = d
        · simpa [same] using ih
        · simp [same]
  rw [List.filter_append, List.map_append, labelled, labelled]
  cases d with
  | forward => exact List.append_nil f
  | reverse => rfl

/-- **Per direction nothing but the label changes.** -/
theorem TeardownReport.unattributedIn_turn (t : TeardownReport) (d : Direction) (turned : Bool) :
    (t.turn turned).unattributedIn d = t.unattributedIn (d.turn turned) := by
  show ((_ ++ _ : List (Direction × PendingSpan)).filter _).map _ = _
  rw [map_filter_labelled]
  cases d <;> rfl

/-- The report of a segment where some streams have turned conversations. -/
def SegmentReport.turn (r : SegmentReport) (turned : Nat → Bool) : SegmentReport :=
  { r with
    direction := r.direction.turn (turned r.stream)
    teardown := r.teardown.map fun t => t.turn (turned t.stream)
    retired := r.retired.map fun t => t.turn (turned t.stream) }

/-- The segment between renamed endpoints. -/
def Segment.rename (s : Segment) (name : Endpoint → Endpoint) : Segment :=
  { s with source := name s.source, destination := name s.destination }

namespace Connection

/-- The connection between other endpoints, where it is said whether these come in the opposite order. -/
def turn (c : Connection) (conversation : Conversation) (turned : Bool) : Connection :=
  { c with
    conversation
    flows := c.flows.turn turned
    client := c.client.map (·.turn turned)
    link := c.link.map (·.turn turned)
    history := c.history.map (·.turn turned) }

variable (c : Connection) (conversation : Conversation) (turned : Bool) (registry : MetaRegistry)
  (config : Config) (probe : Option LengthProbe) (d : Direction) (s : Segment)

/-! ### Flows -/

@[simp] theorem flow_turn : (c.turn conversation turned).flow (d.turn turned) = c.flow d :=
  c.flows.get_turn d turned

@[simp] theorem setFlow_turn (f : Flow) :
    (c.turn conversation turned).setFlow (d.turn turned) f =
      (c.setFlow d f).turn conversation turned :=
  congrArg (fun flows => { c.turn conversation turned with flows }) (c.flows.set_turn d f turned)

@[simp] theorem setFlows_turn (sender peer : Flow) :
    (c.turn conversation turned).setFlows (d.turn turned) sender peer =
      (c.setFlows d sender peer).turn conversation turned := by
  unfold setFlows
  rw [setFlow_turn, Direction.opposite_turn, setFlow_turn]

/-- What is counted over both flows is the same. -/
theorem sum_flows_turn (f : Flow → Nat) :
    f (c.turn conversation turned).flows.forward + f (c.turn conversation turned).flows.reverse =
      f c.flows.forward + f c.flows.reverse := by
  cases turned with
  | false => rfl
  | true => exact Nat.add_comm _ _

@[simp] theorem bothFinished_turn : (c.turn conversation turned).bothFinished = c.bothFinished := by
  unfold bothFinished
  cases turned with
  | false => rfl
  | true => exact Bool.and_comm _ _

/-! ### Opening -/

theorem noteHandshake_turn :
    (c.turn conversation turned).noteHandshake (d.turn turned) s =
      (c.noteHandshake d s).turn conversation turned := by
  have client : (c.client.map (·.turn turned)).or
      (some (if s.flags.ack then (d.turn turned).opposite else d.turn turned)) =
        (c.client.or (some (if s.flags.ack then d.opposite else d))).map (·.turn turned) := by
    rw [Direction.opposite_turn]
    cases c.client with
    | none => cases s.flags.ack <;> rfl
    | some client => rfl
  unfold noteHandshake
  rw [show (c.turn conversation turned).client = c.client.map (·.turn turned) from rfl, client]
  split
  · rfl
  · split <;> rfl

theorem negotiateWindowScale_turn :
    (c.turn conversation turned).negotiateWindowScale (d.turn turned) s =
      (c.negotiateWindowScale d s).turn conversation turned := by
  unfold negotiateWindowScale
  rw [Direction.opposite_turn]
  simp only [flow_turn, setFlow_turn, setFlows_turn]
  repeat' split
  all_goals rfl

theorem noteOpening_turn :
    (c.turn conversation turned).noteOpening (d.turn turned) s =
      (c.noteOpening d s).turn conversation turned := by
  unfold noteOpening
  simp only [noteHandshake_turn, negotiateWindowScale_turn, flow_turn, setFlow_turn]

theorem judged_turn :
    (c.turn conversation turned).judged config (d.turn turned) s =
      ((c.judged config d s).1.turn conversation turned, (c.judged config d s).2) := by
  unfold judged judge
  simp only [noteOpening_turn, Direction.opposite_turn, flow_turn, setFlows_turn]
  rfl

theorem recorded_turn :
    (c.turn conversation turned).recorded config (d.turn turned) s =
      (c.recorded config d s).turn turned := by
  unfold recorded recordOf
  simp only [judged_turn, Direction.opposite_turn, flow_turn]
  rfl

/-! ### Multipath -/

theorem passage_turn :
    (c.turn conversation turned).passage config (d.turn turned) s =
      (c.passage config d s).turn turned := by
  unfold passage
  simp only [judged_turn, flow_turn]
  rfl

theorem correlated_turn :
    (c.turn conversation turned).correlated registry config (d.turn turned) s =
      (c.correlated registry config d s).turn turned := by
  unfold correlated
  rw [judged_turn, passage_turn]
  split
  · exact correlate_turn registry _ _ turned
  · rfl

theorem linked_turn :
    (c.turn conversation turned).linked registry config (d.turn turned) s =
      (c.linked registry config d s).turn conversation turned := by
  have correlated := correlate_turn registry (c.judged config d s).1.link (c.passage config d s) turned
  unfold linked
  rw [judged_turn, passage_turn]
  cases config.multipath with
  | false => rfl
  | true =>
      exact congrArg (fun x : Correlated =>
        { (c.judged config d s).1.turn conversation turned with link := x.link }) correlated

/-! ### Payload and end -/

/-- What a step delivered, in a turned conversation. -/
def Dissected.turn (x : Dissected) (conversation : Conversation) (turned : Bool) : Dissected :=
  { x with connection := x.connection.turn conversation turned }

theorem dissect_turn (p : Passage) (found : Findings) :
    (c.turn conversation turned).dissect config probe (p.turn turned) found =
      (c.dissect config probe p found).turn conversation turned := by
  have reassembled (probe : LengthProbe) :
      (c.turn conversation turned).reassemble config probe (p.turn turned) =
        (c.reassemble config probe p).turn conversation turned := by
    unfold reassemble Passage.turn
    simp only [flow_turn, setFlow_turn]
    rfl
  unfold dissect
  cases probe with
  | none => rfl
  | some probe =>
      dsimp only
      rw [reassembled]
      show (if p.segment.payload.isEmpty || found.isProbing then _ else _) = _
      split <;> rfl

theorem dissected_turn :
    (c.turn conversation turned).dissected registry config probe (d.turn turned) s =
      (c.dissected registry config probe d s).turn conversation turned := by
  unfold dissected
  rw [linked_turn, passage_turn, judged_turn]
  exact dissect_turn _ conversation turned config probe _ _

theorem closeDirection_turn (frame : Nat) (dissecting : Bool) :
    (c.turn conversation turned).closeDirection (d.turn turned) frame dissecting =
      (c.closeDirection d frame dissecting).turn conversation turned := by
  unfold closeDirection
  simp only [flow_turn, setFlow_turn]
  cases dissecting <;> rfl

theorem finished_turn :
    (c.turn conversation turned).finished registry config probe (d.turn turned) s =
      (c.finished registry config probe d s).turn conversation turned := by
  unfold finished
  rw [dissected_turn]
  split
  · exact closeDirection_turn _ conversation turned d s.frame probe.isSome
  · rfl

/-- What was still pending is given up under the other label. -/
theorem takePending_turn (l : SubflowLink) :
    (l.turn turned).takePending.1 = l.takePending.1.turn turned ∧
      (l.turn turned).takePending.2 =
        ((l.takePending.2.filter (·.1 == .turn .forward turned)).map Prod.snd).map (.forward, ·) ++
          ((l.takePending.2.filter (·.1 == .turn .reverse turned)).map Prod.snd).map (.reverse, ·) := by
  have given (d : Direction) : (l.takePending.2.filter (·.1 == d)).map Prod.snd =
      (Duplex.mk l.mappings.forward.pending l.mappings.reverse.pending).get d :=
    map_filter_labelled ..
  rw [given, given]
  cases turned <;> exact ⟨rfl, rfl⟩

theorem teardown_turn (reason : TeardownReason) :
    (c.turn conversation turned).teardown reason =
      ((c.teardown reason).1.turn conversation turned, (c.teardown reason).2.turn turned) := by
  have discarded := c.sum_flows_turn conversation turned fun f => f.assembler.openPdus
  have dropped := c.sum_flows_turn conversation turned fun f => f.reorder.heldBytes
  have abandoned : (⟨abandonFlow (c.turn conversation turned).flows.forward,
      abandonFlow (c.turn conversation turned).flows.reverse⟩ : Duplex Flow) =
        (⟨abandonFlow c.flows.forward, abandonFlow c.flows.reverse⟩ : Duplex Flow).turn turned := by
    cases turned <;> rfl
  have link : (c.turn conversation turned).link = c.link.map (·.turn turned) := rfl
  unfold teardown
  dsimp only
  rw [discarded, dropped, abandoned, link]
  cases c.link with
  | none => rfl
  | some l =>
      obtain ⟨emptied, pending⟩ := takePending_turn turned l
      dsimp only [Option.map_some, Option.getD_some]
      rw [emptied, pending]
      rfl

theorem endWith_turn :
    (c.turn conversation turned).endWith s =
      ((c.endWith s).1.turn conversation turned, (c.endWith s).2.map (·.turn turned)) := by
  unfold endWith
  rw [bothFinished_turn, show (c.turn conversation turned).closed = c.closed from rfl]
  split
  · rfl
  · have ended := teardown_turn { c with closed := true } conversation turned
      (if s.flags.rst then .reset else .closed)
    exact congrArg (fun x : Connection × TeardownReport => (x.1, some x.2)) ended

theorem ended_turn :
    (c.turn conversation turned).ended registry config probe (d.turn turned) s =
      ((c.ended registry config probe d s).1.turn conversation turned,
        (c.ended registry config probe d s).2.map (·.turn turned)) := by
  unfold ended
  rw [finished_turn]
  exact endWith_turn _ conversation turned s

/-- **Handling in a turned conversation** is handling in the other direction. -/
theorem handle_turn :
    (c.turn conversation turned).handle registry config probe (d.turn turned) s =
      { c.handle registry config probe d s with
        connection := (c.handle registry config probe d s).connection.turn conversation turned
        report := (c.handle registry config probe d s).report.turn fun _ => turned } := by
  have noted (x : Connection) (record : SegmentRecord) :
      { x.turn conversation turned with
        history := (x.turn conversation turned).history.push (record.turn turned) } =
        ({ x with history := x.history.push record } : Connection).turn conversation turned := by
    unfold turn
    rw [Array.map_push]
  rw [handle_eq, handle_eq, recorded_turn, judged_turn, correlated_turn, dissected_turn, finished_turn,
    ended_turn]
  dsimp only
  rw [noted, ← apply_ite (turn · conversation turned)]
  rfl

/-! ### Endpoints of a segment -/

section Renaming

variable (name : Endpoint → Endpoint)

theorem correlated_rename :
    c.correlated registry config d (s.rename name) = c.correlated registry config d s := by
  have same : s.SameTransport (s.rename name) := rfl
  unfold correlated
  rw [c.judged_congr config d same, c.passage_congr config d same]
  rfl

/-- **Handling does not look at the endpoints of a segment.** -/
theorem handle_rename :
    c.handle registry config probe d (s.rename name) = c.handle registry config probe d s :=
  c.handle_congr registry config probe d rfl (c.correlated_rename registry config d s name)

end Renaming

end Connection

end TcpCapture
