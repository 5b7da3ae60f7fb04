import TcpCapture.Multipath.Correlation

/-!
# What a segment says of its multipath connection

Once a segment is known to belong to a multipath connection, its options and its payload are applied to
it.  They place data and may fail the connection.  They never change what was settled when it opened,
which subflows it has, or what part a subflow takes.

## Main definitions

* `MetaFlow.origin`, `MetaConnection.origin` — what is settled when a connection opens
* `SubflowLink.part` — what is settled when a subflow is attached
* `Segment.signalsFailure` — a segment with an MP_FAIL or with a mapping whose checksum is wrong
* `Correlation.Hears` — all that options and payload do, but for placing data

**A verdict is final.**  A failure fails a connection that is not judged yet, and no other.
-/

namespace TcpCapture

/-- The state after a failure was signalled. -/
def HandshakeState.failed (state : HandshakeState) : HandshakeState :=
  if state.isTerminal then state else .incorrect

@[simp] theorem HandshakeState.isTerminal_failed (state : HandshakeState) :
    state.failed.isTerminal = true := by
  cases state <;> rfl

theorem HandshakeState.failed_of_isTerminal {state : HandshakeState}
    (final : state.isTerminal = true) : state.failed = state := if_pos final

theorem HandshakeState.eq_ok_of_failed {state : HandshakeState} (ok : state.failed = .ok) :
    state = .ok := by
  cases state with
  | ok => rfl
  | _ => cases ok

/-- The option signals a failure. -/
def MultipathOption.signalsFailure : MultipathOption → Bool
  | .fail _ => true
  | .dss signal => signal.mapping.any (·.checksumValid == some false)
  | _ => false

/-- The segment has an option that signals a failure. -/
def Segment.signalsFailure (s : Segment) : Bool := s.multipath.any (·.signalsFailure)

/-- What is settled of a side when the connection opens: its key, and what follows from it. -/
def MetaFlow.origin (f : MetaFlow) : MetaFlow :=
  { key := f.key, token := f.token, baseDsn := f.baseDsn }

/-- What is settled of a connection when it opens. -/
def MetaConnection.origin (m : MetaConnection) : MetaConnection where
  metaId := m.metaId
  hmac := m.hmac
  checksumRequired := m.checksumRequired
  client := m.client.origin
  server := m.server.origin

/-- What is settled of a subflow when it is attached. -/
def SubflowLink.part (l : SubflowLink) : SubflowLink where
  metaId := l.metaId
  synKey := l.synKey
  clientDirection := l.clientDirection
  joined := l.joined

namespace MetaFlow

theorem origin_recordMapping? {f g : MetaFlow} {dsn : DataSeq} {len : Nat} {span : DsnSpan}
    {earlier : List DsnSpan} (recorded : f.recordMapping? dsn len span = .ok (g, earlier)) :
    g.origin = f.origin := by
  unfold recordMapping? at recorded
  cases range : Range.ofLength (f.relative dsn) len with
  | error e =>
      rw [range] at recorded
      cases recorded
  | ok range' =>
      rw [range] at recorded
      cases recorded
      rfl

end MetaFlow

namespace MetaConnection

variable (m : MetaConnection)

theorem origin_setFlow {side : MetaSide} {f : MetaFlow} (same : f.origin = (m.flow side).origin) :
    (m.setFlow side f).origin = m.origin := by
  cases side with
  | client => exact congrArg (fun client => { m.origin with client }) same
  | server => exact congrArg (fun server => { m.origin with server }) same

theorem subflows_setFlow (side : MetaSide) (f : MetaFlow) :
    (m.setFlow side f).subflows = m.subflows := by
  cases side <;> rfl

theorem state_setFlow (side : MetaSide) (f : MetaFlow) : (m.setFlow side f).state = m.state := by
  cases side <;> rfl

theorem origin_addSubflow (stream : Nat) : (m.addSubflow stream).origin = m.origin := by
  unfold addSubflow
  split <;> rfl

theorem state_addSubflow (stream : Nat) : (m.addSubflow stream).state = m.state := by
  unfold addSubflow
  split <;> rfl

theorem subflows_addSubflow (stream : Nat) :
    (m.addSubflow stream).subflows =
      if stream ∈ m.subflows then m.subflows else m.subflows ++ [stream] := by
  unfold addSubflow
  by_cases mem : stream ∈ m.subflows
  · rw [if_pos (List.contains_iff_mem.2 mem), if_pos mem]
  · rw [if_neg fun contains => mem (List.contains_iff_mem.1 contains), if_neg mem]

theorem mem_subflows_addSubflow (stream : Nat) : stream ∈ (m.addSubflow stream).subflows := by
  rw [subflows_addSubflow]
  split
  · assumption
  · exact List.mem_append_right _ (List.mem_singleton_self _)

theorem origin_confirm (echo : MpCapable) : (m.confirm echo).origin = m.origin := by
  unfold confirm
  split <;> rfl

theorem subflows_confirm (echo : MpCapable) : (m.confirm echo).subflows = m.subflows := by
  unfold confirm
  split <;> rfl

/-- **What an echo of the keys does**: nothing, or it confirms a pending connection whose keys it
repeats, or it fails one that is not judged yet. -/
theorem state_confirm_cases (echo : MpCapable) :
    (m.confirm echo).state = m.state ∨
      m.state = .pending ∧ m.echoMatches echo = true ∧ (m.confirm echo).state = .ok ∨
      m.state.isTerminal = false ∧ (m.confirm echo).state = .incorrect := by
  unfold confirm
  split
  · rename_i state
    exact Or.inr (Or.inr ⟨by rw [state]; rfl, rfl⟩)
  · rename_i state
    dsimp only
    split
    · rename_i matching
      exact Or.inr (Or.inl ⟨state, matching, rfl⟩)
    · exact Or.inr (Or.inr ⟨by rw [state]; rfl, rfl⟩)
  · exact Or.inl rfl
  · exact Or.inl rfl
  · exact Or.inl rfl

end MetaConnection

namespace Correlation

/-- `t` is `s` once more was heard: data may have been placed, and the connection fails if that is
`failing`. -/
structure Hears (failing : Bool) (s t : State) : Prop where
  origin : t.connection.origin = s.connection.origin
  subflows : t.connection.subflows = s.connection.subflows
  part : t.link.part = s.link.part
  state : t.connection.state = if failing then s.connection.state.failed else s.connection.state

namespace Hears

theorem refl (s : State) : Hears false s s := ⟨rfl, rfl, rfl, rfl⟩

theorem trans {f g : Bool} {s t u : State} (h : Hears f s t) (h' : Hears g t u) :
    Hears (f || g) s u where
  origin := h'.origin.trans h.origin
  subflows := h'.subflows.trans h.subflows
  part := h'.part.trans h.part
  state := by
    rw [h'.state, h.state]
    cases f with
    | false => rfl
    | true =>
        cases g with
        | false => rfl
        | true => exact HandshakeState.failed_of_isTerminal (HandshakeState.isTerminal_failed _)

end Hears

variable (p : Passage) (s : State)

theorem hears_setFlow {side : MetaSide} {f : MetaFlow} {link : SubflowLink}
    {analysis : MultipathAnalysis} (origin : f.origin = (s.connection.flow side).origin)
    (part : link.part = s.link.part) :
    Hears false s { link, connection := s.connection.setFlow side f, analysis } :=
  ⟨s.connection.origin_setFlow origin, s.connection.subflows_setFlow side f, part,
    s.connection.state_setFlow side f⟩

theorem hears_fail (frame : Nat) : Hears true s { s with connection := s.connection.fail frame } :=
  ⟨rfl, rfl, rfl, rfl⟩

theorem hears_applyMapping (mapping : DssMapping) :
    Hears (mapping.checksumValid == some false) s (applyMapping p s mapping) := by
  unfold applyMapping
  extract_lets frame side flow mappings dsn len analysis inserted analysis' placed
  have kept : inserted.connection = s.connection ∧ inserted.link.part = s.link.part := by
    unfold inserted
    split <;> exact ⟨rfl, rfl⟩
  have unheard : Hears false s inserted :=
    ⟨by rw [kept.1], by rw [kept.1], kept.2, by rw [kept.1]; rfl⟩
  have mapped : Hears false s placed := by
    unfold placed
    split
    · exact ⟨rfl, rfl, rfl, rfl⟩
    · split
      · exact unheard
      · rename_i recorded
        refine unheard.trans (hears_setFlow inserted ?_ rfl)
        rw [kept.1]
        exact MetaFlow.origin_recordMapping? recorded
  split
  · rename_i wrong
    rw [wrong]
    exact mapped.trans (hears_fail placed frame)
  · rename_i right
    rw [show (mapping.checksumValid == some false) = false from beq_eq_false_iff_ne.2 right]
    exact mapped

theorem hears_applyDataAck (dataAck : WireDataSeq) : Hears false s (applyDataAck p s dataAck) :=
  hears_setFlow s rfl rfl

theorem hears_applyDataFin : Hears false s (applyDataFin p s) := hears_setFlow s rfl rfl

theorem hears_signal (dss : Dss) :
    Hears (dss.mapping.any (·.checksumValid == some false)) s (signal p s dss) := by
  have mapped : Hears (dss.mapping.any (·.checksumValid == some false)) s
      (dss.mapping.elim s (applyMapping p s)) := by
    cases dss.mapping with
    | none => exact .refl s
    | some mapping => exact hears_applyMapping p s mapping
  have acked (s : State) : Hears false s (dss.dataAck.elim s (applyDataAck p s)) := by
    cases dss.dataAck with
    | none => exact .refl s
    | some dataAck => exact hears_applyDataAck p s dataAck
  have heard := mapped.trans (acked _)
  rw [Bool.or_false] at heard
  unfold signal
  dsimp only
  split
  · have ended := heard.trans (hears_applyDataFin p _)
    rwa [Bool.or_false] at ended
  · exact heard

theorem hears_applyOption (option : MultipathOption) :
    Hears option.signalsFailure s (applyOption p s option) := by
  cases option with
  | dss dss => exact hears_signal p s dss
  | fail dsn => exact hears_fail s p.segment.frame
  | _ => exact ⟨rfl, rfl, rfl, rfl⟩

theorem hears_placePayload : Hears false s (placePayload p s) := by
  unfold placePayload
  split
  · exact .refl s
  · exact ⟨rfl, rfl, rfl, rfl⟩

/-- **Options and payload settle nothing but the verdict**, and that only where a failure is
signalled. -/
theorem hears_applySegment : Hears p.segment.signalsFailure s (applySegment p s) := by
  have applied : Hears p.segment.signalsFailure s
      (p.segment.multipath.foldl (applyOption p) s) := by
    unfold Segment.signalsFailure
    generalize p.segment.multipath = options
    induction options generalizing s with
    | nil => exact .refl s
    | cons option rest ih => exact (hears_applyOption p s option).trans (ih _)
  have placed := applied.trans (hears_placePayload p _)
  rw [Bool.or_false] at placed
  exact ⟨placed.origin, placed.subflows, placed.part, placed.state⟩

end Correlation

end TcpCapture
