import TcpCapture.Proofs.Connection.Mapping
import TcpCapture.Proofs.Flow.Tracking
import TcpCapture.Proofs.Session.Handling

/-!
# Handling without dissection

What a segment does to a connection has two halves.  Tracking follows the handshake, the positions, the
multipath connection and the end; dissection holds payload back, cuts PDUs out of it and drops it.  The
first half never reads what the second one writes.

## Main definitions

* `Connection.tracked`, `Config.tracked` — what tracking reads of a connection and of the settings
* `SegmentReport.tracked`, `TeardownReport.tracked` — what tracking says
* `Connection.AlikeHandled` — two segments were handled alike, but for dissection

**Multipath.**  All of these come with multipath and without it.  Without it the multipath half of a
connection is left out as well, and so is everything it has a say in.
-/

namespace TcpCapture

/-! ### What tracking reads and says -/

/-- The settings of tracking. -/
def Config.tracked (multipath : Bool) (config : Config) : Config :=
  { config with
    recordHistory := false
    multipath := multipath && config.multipath
    maxReorderBytes := 0
    framing := {} }

/-- What tracking says of a connection that is given up. -/
def TeardownReport.tracked (multipath : Bool) (t : TeardownReport) : TeardownReport :=
  { t with
    discardedPdus := 0
    deliveredAtClose := 0
    droppedBytes := 0
    unattributed := if multipath then t.unattributed else [] }

/-- What tracking says of a segment. -/
def SegmentReport.tracked (multipath : Bool) (r : SegmentReport) : SegmentReport :=
  { r with
    pdusDelivered := 0
    pduError := none
    multipath := if multipath then r.multipath else none
    teardown := r.teardown.map (·.tracked multipath)
    retired := r.retired.map (·.tracked multipath) }

namespace Connection

/-- What tracking knows of a connection. -/
def tracked (multipath : Bool) (c : Connection) : Connection :=
  { c with
    flows := ⟨c.flows.forward.tracked, c.flows.reverse.tracked⟩
    link := if multipath then c.link else none
    history := #[] }

/-- The table does not look at what is left out. -/
theorem unnoticed_tracked (multipath : Bool) : Unnoticed (·.tracked multipath) where
  stream _ := rfl
  conversation _ := rfl
  tsPrev _ := rfl
  start _ _ _ := by cases multipath <;> rfl
  active _ _ := rfl

variable (multipath : Bool) (c : Connection) (config : Config) (d : Direction) (s : Segment)

@[simp] theorem tracked_tracked : (c.tracked multipath).tracked multipath = c.tracked multipath := by
  cases multipath <;> rfl

theorem flow_tracked : (c.tracked multipath).flow d = (c.flow d).tracked := by
  cases d <;> rfl

theorem setFlow_tracked (f : Flow) :
    (c.tracked multipath).setFlow d f.tracked = (c.setFlow d f).tracked multipath := by
  cases d <;> rfl

theorem setFlows_tracked (sender peer : Flow) :
    (c.tracked multipath).setFlows d sender.tracked peer.tracked =
      (c.setFlows d sender peer).tracked multipath := by
  cases d <;> rfl

/-! ### Tracking does not read payload -/

theorem noteHandshake_tracked :
    (c.tracked multipath).noteHandshake d s = (c.noteHandshake d s).tracked multipath := by
  unfold noteHandshake
  cases s.flags.syn with
  | true => rfl
  | false => cases s.flags.ack <;> rfl

theorem negotiateWindowScale_tracked :
    (c.tracked multipath).negotiateWindowScale d s =
      (c.negotiateWindowScale d s).tracked multipath := by
  unfold negotiateWindowScale
  rw [flow_tracked, flow_tracked]
  cases s.flags.syn with
  | false => rfl
  | true =>
      simp only [Bool.not_true, Bool.false_eq_true, if_false]
      rw [apply_ite (tracked multipath), ← setFlows_tracked, ← setFlow_tracked]
      rfl

/-- A SYN tells the reorder buffer where payload starts; nothing else is noted there. -/
theorem noteOpening_tracked :
    ((c.tracked multipath).noteOpening d s).tracked multipath =
      (c.noteOpening d s).tracked multipath := by
  unfold noteOpening
  dsimp only
  rw [noteHandshake_tracked, negotiateWindowScale_tracked, flow_tracked, ← setFlow_tracked,
    ← setFlow_tracked, tracked_tracked]
  cases s.flags.syn <;> rfl

theorem judge_tracked :
    (c.tracked multipath).judge (config.tracked multipath) d s =
      ((c.judge config d s).1.tracked multipath, (c.judge config d s).2) := by
  unfold judge
  dsimp only
  rw [flow_tracked, flow_tracked, show (config.tracked multipath).analyzeSequence =
      config.analyzeSequence from rfl, show (config.tracked multipath).thresholds =
      config.thresholds from rfl, show (c.tracked multipath).firstRtt = c.firstRtt from rfl,
    Classified.classify_tracked, Classified.track_tracked, ← apply_ite Classified.tracked,
    ← setFlows_tracked]
  rfl

theorem recordOf_tracked (classification : Classification) :
    (c.tracked multipath).recordOf d s classification = c.recordOf d s classification := by
  unfold recordOf
  rw [flow_tracked, flow_tracked]
  rfl

/-! ### Dissection does not write what is tracked -/

theorem reorder_tracked (f : Flow) (chunk : Chunk) (limit : Nat) :
    (reorder f chunk limit).1.tracked = f.tracked := by
  unfold reorder
  dsimp only
  split
  · rfl
  · rfl
  · split
    · rfl
    · unfold skipGap
      dsimp only
      split <;> rfl

theorem dissected_tracked (registry : MetaRegistry) (probe : Option LengthProbe) :
    (c.dissected registry config probe d s).connection.tracked multipath =
      (c.linked registry config d s).tracked multipath := by
  rcases c.dissected_cases registry config probe d s with
    ⟨-, kept⟩ | ⟨-, lengthProbe, f, chunks, -, reordered, dissected⟩
  · rw [kept]
  · have unmoved : f.tracked = ((c.linked registry config d s).flow d).tracked := by
      have moved := reorder_tracked ((c.linked registry config d s).flow d) (c.arriving config d s)
        config.maxReorderBytes
      rw [reordered] at moved
      exact moved
    rw [dissected, ← setFlow_tracked]
    show ((c.linked registry config d s).tracked multipath).setFlow d f.tracked = _
    rw [unmoved]
    cases d <;> rfl

/-- Only the frame of the FIN is tracked, and that is noted with a probe and without one. -/
theorem closeDirection_tracked (frame : Nat) (dissecting : Bool) :
    (c.closeDirection d frame dissecting).connection.tracked multipath =
      ((c.tracked multipath).closeDirection d frame false).connection := by
  unfold closeDirection
  rw [flow_tracked]
  cases dissecting with
  | false => exact (setFlow_tracked multipath c d _).symm
  | true => exact (setFlow_tracked multipath c d _).symm

theorem endWith_tracked :
    ((c.tracked multipath).endWith s).1.tracked multipath = (c.endWith s).1.tracked multipath ∧
      ((c.tracked multipath).endWith s).2.map (·.tracked multipath) =
        (c.endWith s).2.map (·.tracked multipath) := by
  unfold endWith
  rw [show (c.tracked multipath).closed = c.closed from rfl,
    show (c.tracked multipath).bothFinished = c.bothFinished from rfl]
  cases c.closed || !(s.flags.rst || c.bothFinished) with
  | true => exact ⟨tracked_tracked multipath c, rfl⟩
  | false => cases multipath <;> exact ⟨rfl, rfl⟩

/-! ### Two ways to handle a segment -/

/-- A segment was handled alike in both, but for dissection. -/
structure AlikeHandled (multipath : Bool) (x y : Handled) : Prop where
  connection : x.connection.tracked multipath = y.connection.tracked multipath
  registry : multipath = true → x.registry = y.registry
  report : x.report.tracked multipath = y.report.tracked multipath

section

variable {multipath} {c c' : Connection} {config config' : Config} {registry registry' : MetaRegistry}
  (alike : c.tracked multipath = c'.tracked multipath)
  (settings : config.tracked multipath = config'.tracked multipath)
  (known : multipath = true → registry = registry') (probe probe' : Option LengthProbe)

include alike settings

theorem judged_alike :
    (c.judged config d s).1.tracked multipath = (c'.judged config' d s).1.tracked multipath ∧
      (c.judged config d s).2 = (c'.judged config' d s).2 := by
  have opened : (c.noteOpening d s).tracked multipath = (c'.noteOpening d s).tracked multipath := by
    rw [← noteOpening_tracked, alike, noteOpening_tracked]
  have judged := judge_tracked multipath (c.noteOpening d s) config d s
  rw [opened, settings, judge_tracked] at judged
  exact ⟨(congrArg Prod.fst judged).symm, (congrArg Prod.snd judged).symm⟩

theorem passage_alike : c.passage config d s = c'.passage config' d s := by
  have judged := (judged_alike d s alike settings).1
  have stream : (c.judged config d s).1.stream = (c'.judged config' d s).1.stream :=
    (congrArg Connection.stream judged :)
  have flows := congrArg (fun c : Connection => c.flow d) judged
  rw [flow_tracked, flow_tracked] at flows
  have base : ((c.judged config d s).1.flow d).baseSeq = ((c'.judged config' d s).1.flow d).baseSeq :=
    (congrArg Flow.baseSeq flows :)
  unfold passage Flow.relative
  rw [stream, base]

theorem recorded_alike : c.recorded config d s = c'.recorded config' d s := by
  obtain ⟨judged, classification⟩ := judged_alike d s alike settings
  unfold recorded
  rw [← recordOf_tracked multipath, judged, classification, recordOf_tracked]

include known

/-- With multipath in view, segments are correlated alike. -/
theorem correlated_alike (on : multipath = true) :
    c.correlated registry config d s = c'.correlated registry' config' d s := by
  subst on
  have link : (c.judged config d s).1.link = (c'.judged config' d s).1.link :=
    (congrArg Connection.link (judged_alike d s alike settings).1 :)
  have enabled : config.multipath = config'.multipath := (congrArg Config.multipath settings :)
  unfold correlated
  rw [link, enabled, passage_alike d s alike settings, known rfl]

theorem linked_alike :
    (c.linked registry config d s).tracked multipath =
      (c'.linked registry' config' d s).tracked multipath := by
  have judged := (judged_alike d s alike settings).1
  have link : (if multipath then (c.linked registry config d s).link else none) =
      if multipath then (c'.linked registry' config' d s).link else none := by
    refine ite_congr rfl (fun on => ?_) fun _ => rfl
    rw [link_linked, link_linked, correlated_alike d s alike settings known on]
  exact congrArg₂ (fun (c : Connection) link => { c with link }) judged link

theorem finished_alike :
    (c.finished registry config probe d s).connection.tracked multipath =
      (c'.finished registry' config' probe' d s).connection.tracked multipath := by
  have dissected : (c.dissected registry config probe d s).connection.tracked multipath =
      (c'.dissected registry' config' probe' d s).connection.tracked multipath := by
    rw [dissected_tracked, dissected_tracked, linked_alike d s alike settings known]
  unfold finished
  split
  · rw [closeDirection_tracked, closeDirection_tracked, dissected]
  · exact dissected

theorem ended_alike :
    (c.ended registry config probe d s).1.tracked multipath =
        (c'.ended registry' config' probe' d s).1.tracked multipath ∧
      (c.ended registry config probe d s).2.map (·.tracked multipath) =
        (c'.ended registry' config' probe' d s).2.map (·.tracked multipath) := by
  obtain ⟨connection, report⟩ :=
    endWith_tracked multipath (c.finished registry config probe d s).connection s
  unfold ended
  rw [← connection, ← report, finished_alike d s alike settings known probe probe']
  exact endWith_tracked multipath (c'.finished registry' config' probe' d s).connection s

/-- **Dissection leaves tracking alone.**  What a segment does to what is tracked, and what is said of
it, follows from what is tracked. -/
theorem handle_alike :
    AlikeHandled multipath (c.handle registry config probe d s)
      (c'.handle registry' config' probe' d s) := by
  have unrecorded (record : Bool) (c : Connection) (history : Array SegmentRecord) :
      (if record then { c with history } else c).tracked multipath = c.tracked multipath := by
    cases record <;> rfl
  obtain ⟨connection, teardown⟩ := ended_alike d s alike settings known probe probe'
  have record := recorded_alike d s alike settings
  have analysis : (if multipath then (c.correlated registry config d s).analysis else none) =
      if multipath then (c'.correlated registry' config' d s).analysis else none :=
    ite_congr rfl (fun on => by rw [correlated_alike d s alike settings known on]) fun _ => rfl
  rw [handle_eq, handle_eq]
  dsimp only
  rw [record, (judged_alike d s alike settings).2]
  refine ⟨?_, fun on => ?_, ?_⟩
  · rw [unrecorded, unrecorded, connection]
  · exact congrArg Correlated.registry (correlated_alike d s alike settings known on)
  · have stream := (congrArg Connection.stream connection :)
    unfold SegmentReport.tracked
    dsimp only
    rw [apply_ite Connection.stream, apply_ite Connection.stream, analysis, teardown]
    dsimp only
    rw [ite_self, ite_self]
    exact congrArg (fun stream => SegmentReport.mk stream _ _ _ _ _ _ _ _ _ _ _ _) stream

end

end Connection

end TcpCapture
