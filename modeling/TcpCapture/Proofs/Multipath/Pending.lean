import TcpCapture.Multipath.Correlation

/-!
# Bytes that wait for a mapping

Correlating a segment makes bytes pending in one way only: it carries payload that the mappings of its
direction do not cover.  Handshakes start with empty mappings, and a mapping that is announced can only
make fewer bytes wait.

## Main definitions

* `SubflowLink.NonePending` — no byte of a direction waits for a mapping
* `nonePending_correlate` — a segment without payload, or of the other direction, leaves it so
-/

namespace TcpCapture

/-- No byte of a direction waits for a mapping. -/
def SubflowLink.NonePending (l : SubflowLink) (d : Direction) : Prop :=
  (l.mappings.get d).pending = []

namespace SubflowMappings

variable {m : SubflowMappings}

theorem pending_resolvePending (none : m.pending = []) : m.resolvePending.1.pending = [] := by
  unfold resolvePending
  rw [none]
  rfl

theorem pending_setInfinite (none : m.pending = []) (ssn : Seq) (dsn : DataSeq) (frame : Nat) :
    (m.setInfinite ssn dsn frame).1.pending = [] := by
  unfold setInfinite
  split
  · exact none
  · exact pending_resolvePending (m := { m with infinite := some ⟨ssn, dsn, frame⟩ }) none

theorem pending_insert? (none : m.pending = []) {ssn : Seq} {len : Nat} {dsn : DataSeq}
    {frame : Nat} {out : SubflowMappings × List AttributedSpan}
    (ok : m.insert? ssn len dsn frame = .ok out) : out.1.pending = [] := by
  unfold insert? at ok
  cases range : Range.ofLength ssn len with
  | error e =>
      rw [range] at ok
      cases ok
  | ok range' =>
      rw [range] at ok
      obtain rfl := Except.ok.inj ok
      exact pending_resolvePending (m := { m with tree := m.tree.insert range' ⟨dsn, frame⟩ }) none

end SubflowMappings

namespace SubflowLink

variable {l : SubflowLink} {d e : Direction}

/-- Mappings without pending bytes can be put in place. -/
theorem NonePending.setMappings (h : l.NonePending e) {m : SubflowMappings}
    (none : d = e → m.pending = []) : (l.setMappings d m).NonePending e := by
  unfold NonePending SubflowLink.setMappings
  by_cases same : d = e
  · subst same
    rw [Duplex.get_set_same]
    exact none rfl
  · obtain rfl := Direction.eq_opposite_of_ne same
    rw [Duplex.get_set_of_opposite]
    exact h

theorem nonePending_of_new (new : l.mappings = .both {}) : l.NonePending e := by
  unfold NonePending
  rw [new, Duplex.get_both]

/-- Giving up the pending bytes of a link leaves none. -/
theorem nonePending_takePending (l : SubflowLink) (e : Direction) : l.takePending.1.NonePending e := by
  cases e <;> rfl

end SubflowLink

namespace Correlation

variable {r : MetaRegistry} {link : Option SubflowLink} {p : Passage} {e : Direction}

theorem mappings_joinBy (r : MetaRegistry) (p : Passage) (option : MpJoin) :
    (joinBy r p option).2.mappings = .both {} := by
  unfold joinBy
  dsimp only
  split <;> rfl

theorem nonePending_opening (none : ∀ l ∈ link, l.NonePending e) :
    ∀ l ∈ (opening r link p).2, l.NonePending e := by
  unfold opening
  split
  · exact none
  · rintro l ⟨⟩
    exact SubflowLink.nonePending_of_new rfl
  · rintro l ⟨⟩
    exact SubflowLink.nonePending_of_new (mappings_joinBy r p _)
  · rintro l ⟨⟩

theorem nonePending_answer (none : ∀ l ∈ link, l.NonePending e) :
    ∀ l ∈ (answer r link p).2, l.NonePending e := by
  unfold answer
  split
  · rintro l ⟨⟩
  · rename_i link'
    split
    · exact none
    · split
      · rintro l ⟨⟩
      · rintro l ⟨⟩
        exact none link' rfl

/-- A handshake keeps the mappings of a link, or starts with empty ones. -/
theorem nonePending_handshake (none : ∀ l ∈ link, l.NonePending e) :
    ∀ l ∈ (handshake r link p).2, l.NonePending e := by
  unfold handshake
  split
  · exact nonePending_opening none
  · exact nonePending_answer none
  · exact none
  · exact none

section

variable {s : State}

theorem nonePending_applyMapping (none : s.link.NonePending e) (mapping : DssMapping) :
    (applyMapping p s mapping).link.NonePending e := by
  have announced : p.direction = e → (s.link.mappings.get p.direction).pending = [] := by
    rintro rfl
    exact none
  unfold applyMapping
  dsimp only
  rw [apply_ite State.link, ite_self]
  split
  · exact none.setMappings fun same => SubflowMappings.pending_setInfinite (announced same) _ _ _
  · have inserted {m : SubflowMappings} {spans : List AttributedSpan} {len : Nat} {dsn : DataSeq}
        (ok : (s.link.mappings.get p.direction).insert? mapping.ssn len dsn p.segment.frame =
          .ok (m, spans)) : (s.link.setMappings p.direction m).NonePending e :=
      none.setMappings fun same => SubflowMappings.pending_insert? (announced same) ok
    split
    · split
      · exact none
      · rename_i ok
        exact inserted ok
    · split
      · exact none
      · rename_i ok
        exact inserted ok

theorem link_applyDataAck (p : Passage) (s : State) (dataAck : WireDataSeq) :
    (applyDataAck p s dataAck).link = s.link := rfl

theorem link_applyDataFin (p : Passage) (s : State) : (applyDataFin p s).link = s.link := rfl

/-- Of a DSS option only the mapping touches the link. -/
theorem link_signal (p : Passage) (s : State) (dss : Dss) :
    (signal p s dss).link = (dss.mapping.elim s (applyMapping p s)).link := by
  unfold signal
  dsimp only
  rw [apply_ite State.link, link_applyDataFin, ite_self]
  cases dss.dataAck with
  | none => rfl
  | some dataAck => rw [Option.elim_some, link_applyDataAck]

theorem nonePending_applyOption (none : s.link.NonePending e) (option : MultipathOption) :
    (applyOption p s option).link.NonePending e := by
  cases option with
  | dss dss =>
      rw [applyOption, link_signal]
      cases dss.mapping with
      | none => exact none
      | some mapping => exact nonePending_applyMapping none mapping
  | _ => exact none

theorem nonePending_applySegment (none : s.link.NonePending e)
    (other : p.direction ≠ e ∨ p.segment.payload = []) :
    (applySegment p s).link.NonePending e := by
  have applied : (p.segment.multipath.foldl (applyOption p) s).link.NonePending e := by
    generalize p.segment.multipath = options
    induction options generalizing s with
    | nil => exact none
    | cons option rest ih => exact ih (nonePending_applyOption none option)
  show (placePayload p (p.segment.multipath.foldl (applyOption p) s)).link.NonePending e
  unfold placePayload
  split
  · exact applied
  · rename_i payload
    refine applied.setMappings fun same => ?_
    rcases other with other | empty
    · exact absurd same other
    · exact absurd (List.isEmpty_iff.2 empty) payload

end

end Correlation

open Correlation in
/-- **Only payload that nothing covers comes to wait**: a segment without payload, or of the other
direction, leaves no byte pending where none was. -/
theorem nonePending_correlate {r : MetaRegistry} {link : Option SubflowLink} {p : Passage}
    {e : Direction} (none : ∀ l ∈ link, l.NonePending e)
    (other : p.direction ≠ e ∨ p.segment.payload = []) :
    ∀ l ∈ (correlate r link p).link, l.NonePending e := by
  have opened : ∀ l ∈ (handshake r link p).2.or
      (if p.hasSignal then some (.orphan p.direction) else Option.none), l.NonePending e := by
    intro l mem
    rcases Option.or_eq_some_iff.1 mem with found | ⟨-, orphan⟩
    · exact nonePending_handshake none l found
    · split at orphan
      · obtain rfl := Option.some.inj orphan
        exact SubflowLink.nonePending_of_new rfl
      · cases orphan
  unfold correlate
  dsimp only
  split
  · rintro l ⟨⟩
  · rename_i l found
    have quiet := opened l found
    split
    · rintro l' ⟨⟩
      exact quiet
    · split
      · rintro l' ⟨⟩
        exact quiet
      · rintro l' ⟨⟩
        exact nonePending_applySegment quiet other

end TcpCapture
