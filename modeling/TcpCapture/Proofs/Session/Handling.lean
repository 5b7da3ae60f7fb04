import TcpCapture.Session.Handling

/-!
# What handling a segment leaves alone

Handling takes a connection through its steps — opening, classification, multipath, payload, end — and
each of them only touches its own part of the connection.

## Main definitions

* `Connection.SameIdentity`, `Connection.Continues` — a connection at a later time, still the same one
* `Connection.judged`, `Connection.passage`, `Connection.linked`, `Connection.dissected`,
  `Connection.finished`, `Connection.ended` — the stages a segment is handled in
* `Connection.dissected_cases`, `Connection.closeDirection_cases` — what becomes of payload
* `Connection.handle_eq` — handling in its stages
* `Segment.SameTransport`, `Connection.handle_congr` — segments that only correlation can tell apart
* `Connection.awaiting` — the stream, as long as its teardown is still to be reported

**Reports of teardown.**  A connection is closed in the moment its teardown is reported: one that has
closed is owed no further report, and any other is owed exactly one.
-/

namespace TcpCapture

/-- The segments have one header and one payload: they may only differ in their ends and in their multipath
options. -/
def Segment.SameTransport (s s' : Segment) : Prop :=
  s' = { s with source := s'.source, destination := s'.destination, multipath := s'.multipath }

namespace Connection

/-! ### The same connection later -/

/-- The two have the same number, the same ends and the same last activity. -/
structure SameIdentity (c d : Connection) : Prop where
  stream : d.stream = c.stream
  conversation : d.conversation = c.conversation
  tsPrev : d.tsPrev = c.tsPrev

theorem SameIdentity.trans {c d e : Connection} (h : c.SameIdentity d) (h' : d.SameIdentity e) :
    c.SameIdentity e where
  stream := h'.stream.trans h.stream
  conversation := h'.conversation.trans h.conversation
  tsPrev := h'.tsPrev.trans h.tsPrev

/-- `d` is `c` at a later time, and has not ended since: only its flows, its handshake, its multipath
link and its history may have changed. -/
structure Continues (c d : Connection) : Prop extends SameIdentity c d where
  closed : d.closed = c.closed

theorem Continues.refl (c : Connection) : c.Continues c := ⟨⟨rfl, rfl, rfl⟩, rfl⟩

theorem Continues.trans {c d e : Connection} (h : c.Continues d) (h' : d.Continues e) :
    c.Continues e where
  toSameIdentity := h.toSameIdentity.trans h'.toSameIdentity
  closed := h'.closed.trans h.closed

theorem continues_setFlow (c : Connection) (d : Direction) (f : Flow) :
    c.Continues (c.setFlow d f) := ⟨⟨rfl, rfl, rfl⟩, rfl⟩

theorem continues_setFlows (c : Connection) (d : Direction) (sender peer : Flow) :
    c.Continues (c.setFlows d sender peer) := ⟨⟨rfl, rfl, rfl⟩, rfl⟩

theorem continues_noteHandshake (c : Connection) (d : Direction) (s : Segment) :
    c.Continues (c.noteHandshake d s) := by
  unfold noteHandshake
  split
  · exact ⟨⟨rfl, rfl, rfl⟩, rfl⟩
  · split
    · exact ⟨⟨rfl, rfl, rfl⟩, rfl⟩
    · exact .refl c

theorem continues_negotiateWindowScale (c : Connection) (d : Direction) (s : Segment) :
    c.Continues (c.negotiateWindowScale d s) := by
  unfold negotiateWindowScale
  split
  · exact .refl c
  · extract_lets offered sender peer
    split
    · exact c.continues_setFlows d _ _
    · exact c.continues_setFlow d _

theorem continues_noteOpening (c : Connection) (d : Direction) (s : Segment) :
    c.Continues (c.noteOpening d s) :=
  ((c.continues_noteHandshake d s).trans (continues_negotiateWindowScale _ d s)).trans
    (continues_setFlow _ d _)

theorem continues_dissect (c : Connection) (config : Config) (probe : Option LengthProbe)
    (p : Passage) (f : Findings) : c.Continues (c.dissect config probe p f).connection := by
  unfold dissect
  split
  · exact .refl c
  · split
    · exact .refl c
    · exact c.continues_setFlow _ _

theorem continues_closeDirection (c : Connection) (d : Direction) (frame : Nat)
    (dissecting : Bool) : c.Continues (c.closeDirection d frame dissecting).connection := by
  unfold closeDirection
  dsimp only
  split
  · exact c.continues_setFlow d _
  · exact c.continues_setFlow d _

/-! ### The stages of handling -/

section

variable (c : Connection) (registry : MetaRegistry) (config : Config) (probe : Option LengthProbe)
  (d : Direction) (s : Segment)

/-- The connection once the segment is classified, and the classification. -/
def judged : Connection × Classification := (c.noteOpening d s).judge config d s

/-- The segment on its way through the connection. -/
def passage : Passage where
  stream := (c.judged config d s).1.stream
  direction := d
  segment := s
  relSeq := ((c.judged config d s).1.flow d).relative s.seq

/-- The connection once the segment is correlated. -/
def linked : Connection :=
  { (c.judged config d s).1 with
    link :=
      if config.multipath then
        (correlate registry (c.judged config d s).1.link (c.passage config d s)).link
      else (c.judged config d s).1.link }

/-- The connection once the payload is taken. -/
def dissected : Dissected :=
  (c.linked registry config d s).dissect config probe (c.passage config d s)
    (c.judged config d s).2.findings

/-- The connection once the direction may have ended. -/
def finished : Dissected :=
  if s.flags.fin then
    (c.dissected registry config probe d s).connection.closeDirection d s.frame probe.isSome
  else { connection := (c.dissected registry config probe d s).connection }

theorem continues_judged : c.Continues (c.judged config d s).1 :=
  (c.continues_noteOpening d s).trans (continues_setFlows _ d _ _)

theorem continues_linked : c.Continues (c.linked registry config d s) :=
  (c.continues_judged config d s).trans ⟨⟨rfl, rfl, rfl⟩, rfl⟩

theorem continues_dissected : c.Continues (c.dissected registry config probe d s).connection :=
  (c.continues_linked registry config d s).trans (continues_dissect _ config probe _ _)

theorem continues_finished : c.Continues (c.finished registry config probe d s).connection := by
  refine (c.continues_dissected registry config probe d s).trans ?_
  unfold finished
  split
  · exact continues_closeDirection _ d _ _
  · exact .refl _

/-- The payload of the segment, where it is pushed. -/
def arriving : Chunk := ⟨(c.passage config d s).relSeq, s.frame, s.timestamp, s.payload⟩

/-- The payload of the segment is passed on to its direction. -/
def PassesPayload : Prop :=
  probe.isSome = true ∧ s.payload ≠ [] ∧ (c.judged config d s).2.findings.isProbing = false

/-- **What dissecting does**: nothing, or it pushes the payload and feeds what comes out. -/
theorem dissected_cases :
    ¬ c.PassesPayload config probe d s ∧
        c.dissected registry config probe d s = { connection := c.linked registry config d s } ∨
      c.PassesPayload config probe d s ∧ ∃ lengthProbe f chunks, probe = some lengthProbe ∧
        reorder ((c.linked registry config d s).flow d) (c.arriving config d s)
          config.maxReorderBytes = (f, chunks) ∧
        c.dissected registry config probe d s =
          { connection := (c.linked registry config d s).setFlow d
              { f with
                assembler := (f.assembler.feedAll config.framing lengthProbe chunks).assembler }
            pdus := (f.assembler.feedAll config.framing lengthProbe chunks).pdus
            error := (f.assembler.feedAll config.framing lengthProbe chunks).error
            delivered := (f.assembler.feedAll config.framing lengthProbe chunks).delivered } := by
  unfold dissected dissect
  split
  · exact Or.inl ⟨fun passes => Bool.false_ne_true passes.1, rfl⟩
  · rename_i lengthProbe
    split
    · rename_i ignored
      refine Or.inl ⟨fun passes => ?_, rfl⟩
      rcases Bool.or_eq_true_iff.1 ignored with empty | probing
      · exact passes.2.1 (List.isEmpty_iff.1 empty)
      · exact Bool.false_ne_true (passes.2.2.symm.trans probing)
    · rename_i passed
      rw [Bool.or_eq_true, not_or, Bool.not_eq_true, Bool.not_eq_true] at passed
      exact Or.inr ⟨⟨rfl, List.isEmpty_eq_false_iff.1 passed.1, passed.2⟩, lengthProbe, _, _, rfl,
        rfl, rfl⟩

/-- **What ending a direction does**: it closes the assembler where payload is passed on, and leaves
what is held back. -/
theorem closeDirection_cases (frame : Nat) (dissecting : Bool) :
    ∃ f : Flow, (c.closeDirection d frame dissecting).connection = c.setFlow d f ∧
      f.reorder = (c.flow d).reorder ∧
      (dissecting = true ∧ f.assembler = ((c.flow d).assembler.close frame).assembler ∧
          (c.closeDirection d frame dissecting).pdus =
            ((c.flow d).assembler.close frame).pdu.toList ∨
        dissecting = false ∧ f.assembler = (c.flow d).assembler ∧
          (c.closeDirection d frame dissecting).pdus = []) := by
  cases dissecting with
  | true => exact ⟨_, rfl, rfl, Or.inl ⟨rfl, rfl, rfl⟩⟩
  | false => exact ⟨_, rfl, rfl, Or.inr ⟨rfl, rfl, rfl⟩⟩

/-- What correlating the segment led to. -/
def correlated : Correlated :=
  if config.multipath then
    correlate registry (c.judged config d s).1.link (c.passage config d s)
  else { registry, link := (c.judged config d s).1.link }

theorem link_linked :
    (c.linked registry config d s).link = (c.correlated registry config d s).link := by
  unfold linked correlated
  cases config.multipath <;> rfl

/-- The record of the segment. -/
def recorded : SegmentRecord :=
  (c.judged config d s).1.recordOf d s (c.judged config d s).2

/-- The connection once it may have ended, and the report of its end. -/
def ended : Connection × Option TeardownReport :=
  (c.finished registry config probe d s).connection.endWith s

/-- Handling is these stages, then the possible end of the connection, then its record. -/
theorem handle_eq :
    c.handle registry config probe d s =
      let data := c.dissected registry config probe d s
      let closing := c.finished registry config probe d s
      let ended := c.ended registry config probe d s
      let record := c.recorded config d s
      let last :=
        if config.recordHistory then
          { ended.1 with history := ended.1.history.push record }
        else ended.1
      { connection := last
        registry := (c.correlated registry config d s).registry
        pdus := data.pdus ++ closing.pdus
        report := {
          stream := last.stream
          direction := d
          frame := s.frame
          seq := record.seq
          nextSeq := record.nextSeq
          ack := record.ack
          len := record.len
          classification := (c.judged config d s).2
          pdusDelivered :=
            (if data.error.isSome then 0 else data.delivered) + closing.delivered
          pduError := data.error
          multipath := (c.correlated registry config d s).analysis
          teardown := ended.2 } } := by
  unfold handle ended recorded finished dissected linked correlated passage judged
  -- segments are correlated only with multipath on, so the stages are compared in both cases
  cases config.multipath <;> rfl

theorem handle_pdus :
    (c.handle registry config probe d s).pdus =
      (c.dissected registry config probe d s).pdus ++
        (c.finished registry config probe d s).pdus := by
  rw [handle_eq]

theorem handle_report_stream : (c.handle registry config probe d s).report.stream =
    (c.handle registry config probe d s).connection.stream := by
  rw [handle_eq]

theorem handle_teardown :
    (c.handle registry config probe d s).report.teardown =
      ((c.finished registry config probe d s).connection.endWith s).2 := by
  rw [handle_eq]
  rfl

theorem handle_flows :
    (c.handle registry config probe d s).connection.flows =
      ((c.finished registry config probe d s).connection.endWith s).1.flows := by
  rw [handle_eq]
  dsimp only
  split <;> rfl

theorem handle_link :
    (c.handle registry config probe d s).connection.link =
      ((c.finished registry config probe d s).connection.endWith s).1.link := by
  rw [handle_eq]
  dsimp only
  split <;> rfl

theorem continues_handle_of_ended :
    ((c.finished registry config probe d s).connection.endWith s).1.Continues
      (c.handle registry config probe d s).connection := by
  rw [handle_eq]
  dsimp only
  split <;> exact ⟨⟨rfl, rfl, rfl⟩, rfl⟩

/-! ### What handling reads of a segment -/

section

variable {s} {s' : Segment} (same : s.SameTransport s')

include same

theorem judged_congr : c.judged config d s' = c.judged config d s := by
  rw [same]
  generalize s'.source = source, s'.destination = destination, s'.multipath = multipath
  have opened : c.noteOpening d { s with source, destination, multipath } = c.noteOpening d s := by
    unfold noteOpening
    rfl
  unfold judged
  rw [opened]
  unfold judge
  rfl

theorem passage_congr : c.passage config d s' = { c.passage config d s with segment := s' } := by
  unfold passage
  rw [c.judged_congr config d same]
  dsimp only
  rw [same]

/-- **Ends and multipath options only count in correlation.** -/
theorem handle_congr
    (correlated : c.correlated registry config d s' = c.correlated registry config d s) :
    c.handle registry config probe d s' = c.handle registry config probe d s := by
  have judged := c.judged_congr config d same
  have linked : c.linked registry config d s' = c.linked registry config d s := by
    have relinked (s : Segment) : c.linked registry config d s =
        { (c.judged config d s).1 with link := (c.correlated registry config d s).link } := by
      rw [← link_linked]
      rfl
    rw [relinked, relinked, judged, correlated]
  have dissected : c.dissected registry config probe d s' = c.dissected registry config probe d s := by
    unfold dissected
    rw [linked, judged, c.passage_congr config d same, same]
    rfl
  have finished : c.finished registry config probe d s' = c.finished registry config probe d s := by
    unfold finished
    rw [dissected, same]
  have ended : c.ended registry config probe d s' = c.ended registry config probe d s := by
    unfold ended
    rw [finished, same]
    rfl
  have recorded : c.recorded config d s' = c.recorded config d s := by
    unfold recorded
    rw [judged, same]
    rfl
  rw [handle_eq, handle_eq, judged, correlated, dissected, finished, ended, recorded, same]

end

/-! ### Reports of teardown -/

/-- The stream of the connection, as long as its teardown is still to be reported. -/
def awaiting : List Nat := if c.closed then [] else [c.stream]

theorem Continues.awaiting {c c' : Connection} (h : c.Continues c') : c'.awaiting = c.awaiting := by
  rw [Connection.awaiting, Connection.awaiting, h.closed, h.stream]

/-- The end of a connection does not change which one it is. -/
theorem sameIdentity_endWith : c.SameIdentity (c.endWith s).1 := by
  unfold endWith
  split <;> exact ⟨rfl, rfl, rfl⟩

/-- The end of a connection is reported when it comes, and never again. -/
theorem endWith_awaiting :
    (c.endWith s).2.toList.map (·.stream) ++ (c.endWith s).1.awaiting = c.awaiting := by
  unfold endWith
  split
  · rfl
  · rename_i ends
    have owed : c.awaiting = [c.stream] :=
      if_neg fun closed => ends (Bool.or_eq_true_iff.2 (Or.inl closed))
    rw [owed]
    rfl

theorem sameIdentity_handle :
    c.SameIdentity (c.handle registry config probe d s).connection :=
  ((c.continues_finished registry config probe d s).toSameIdentity.trans
    (sameIdentity_endWith _ s)).trans
      (c.continues_handle_of_ended registry config probe d s).toSameIdentity

/-- **A segment that ends its connection carries the report of it**, and no other segment does. -/
theorem handle_awaiting :
    (c.handle registry config probe d s).report.teardown.toList.map (·.stream) ++
      (c.handle registry config probe d s).connection.awaiting = c.awaiting := by
  rw [handle_teardown, (c.continues_handle_of_ended registry config probe d s).awaiting,
    endWith_awaiting, (c.continues_finished registry config probe d s).awaiting]

end

end Connection

end TcpCapture
