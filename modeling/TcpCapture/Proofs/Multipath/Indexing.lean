import Mathlib.Algebra.Group.Nat.Defs
import TcpCapture.Proofs.Multipath.Handshake
import TcpCapture.Proofs.Session.Run

/-!
# The two indexes of a mapping

A mapping that an attached subflow announces goes into two indexes.  The mappings of its direction hold it by
subflow position, and its side of the multipath connection by data sequence number.  Each of them is asked
by itself, and neither asks what the other one did.

## Main definitions

* `Indexes` — what mappings have made of both; `Correlation.indexes?`, the indexes of a link that is attached
* `Indexes.inserted?`, `Indexes.recorded?` — what the two make of a mapping; `Indexes.take`, both together
* `Indexes.Together` — the mapping is in both indexes now, or both are what they were

**Two scales.**  A mapping has to end inside the subflow sequence space, and inside that of the data when
it is counted from the first number of the side.  One of them can refuse what the other one takes.
-/

namespace TcpCapture

/-- The mappings announced, whatever bytes wait for more of them. -/
def SubflowMappings.mapped (m : SubflowMappings) : SubflowMappings := { m with pending := [] }

/-- What mappings have made of a side, whatever was acknowledged or ended. -/
def MetaFlow.mapped (f : MetaFlow) : MetaFlow := { f with maxDsnAcked := none, dataFinFrame := none }

/-- The mapping that an option announces. -/
def MultipathOption.mapping? : MultipathOption → Option DssMapping
  | .dss signal => signal.mapping
  | _ => none

/-- The mappings that a segment announces. -/
def Segment.mappings (s : Segment) : List DssMapping := s.multipath.filterMap (·.mapping?)

/-- The mapping ends inside the subflow sequence space. -/
def DssMapping.FitsSubflow (mapping : DssMapping) : Prop :=
  mapping.ssn.toNat + mapping.length.toNat ≤ 2 ^ 32

/-- What mappings have made of both indexes of a subflow direction. -/
structure Indexes where
  mappings : SubflowMappings
  flow : MetaFlow
deriving DecidableEq

namespace Indexes

/-- The data sequence number that a mapping starts at. -/
def start (x : Indexes) (mapping : DssMapping) : DataSeq := x.flow.expand mapping.dsn

/-- The mapping ends inside the data sequence space, counted from the first number of the side. -/
def FitsData (x : Indexes) (mapping : DssMapping) : Prop :=
  (x.flow.relative (x.start mapping)).toNat + mapping.length.toNat ≤ 2 ^ 64

/-- The mappings of the direction with one more. -/
def inserted? (x : Indexes) (p : Passage) (mapping : DssMapping) :
    Except CaptureError SubflowMappings :=
  (x.mappings.insert? mapping.ssn mapping.length.toNat (x.start mapping) p.segment.frame).map
    (·.1.mapped)

/-- The side with one more mapping. -/
def recorded? (x : Indexes) (p : Passage) (mapping : DssMapping) : Except CaptureError MetaFlow :=
  (x.flow.recordMapping? (x.start mapping) mapping.length.toNat
    ⟨p.stream, p.segment.frame, mapping.ssn⟩).map (·.1.mapped)

/-- The mappings of the direction with an infinite one, unless they have one. -/
def unbounded (x : Indexes) (p : Passage) (mapping : DssMapping) : SubflowMappings :=
  (x.mappings.setInfinite mapping.ssn (x.start mapping) p.segment.frame).1.mapped

/-- Both indexes after a mapping: each takes it if it can, but the infinite one is of the subflow only. -/
def take (p : Passage) (x : Indexes) (mapping : DssMapping) : Indexes :=
  if mapping.length.toNat = 0 then { x with mappings := x.unbounded p mapping }
  else
    { mappings := (x.inserted? p mapping).toOption.getD x.mappings
      flow := (x.recorded? p mapping).toOption.getD x.flow }

/-- The mapping is in both indexes afterwards, or both are what they were. -/
def Together (before after : Indexes) (p : Passage) (mapping : DssMapping) : Prop :=
  before.inserted? p mapping = .ok after.mappings ∧ before.recorded? p mapping = .ok after.flow ∨
    after = before

end Indexes

/-! ### The updates and what they do not depend on -/

theorem SubflowMappings.insert?_mapped (m : SubflowMappings) (ssn : Seq) (len : Nat) (dsn : DataSeq)
    (frame : Nat) :
    (m.mapped.insert? ssn len dsn frame).map (·.1.mapped) =
      (m.insert? ssn len dsn frame).map (·.1.mapped) := by
  unfold insert?
  cases Range.ofLength ssn len <;> rfl

theorem SubflowMappings.setInfinite_mapped (m : SubflowMappings) (ssn : Seq) (dsn : DataSeq)
    (frame : Nat) :
    (m.mapped.setInfinite ssn dsn frame).1.mapped = (m.setInfinite ssn dsn frame).1.mapped := by
  obtain ⟨tree, pending, infinite⟩ := m
  cases infinite <;> rfl

theorem MetaFlow.recordMapping?_mapped (f : MetaFlow) (dsn : DataSeq) (len : Nat) (span : DsnSpan) :
    (f.mapped.recordMapping? dsn len span).map (·.1.mapped) =
      (f.recordMapping? dsn len span).map (·.1.mapped) := by
  unfold recordMapping?
  rw [show f.mapped.relative dsn = f.relative dsn from rfl]
  cases Range.ofLength (f.relative dsn) len <;> rfl

/-- There is a range of some points exactly if the last one fits. -/
theorem Range.exists_ofLength_iff {w : Nat} (start : BitVec w) {len : Nat} (pos : 0 < len) :
    (∃ range, Range.ofLength start len = .ok range) ↔ start.toNat + len ≤ 2 ^ w := by
  constructor
  · rintro ⟨range, accepted⟩
    obtain ⟨-, -, high⟩ := Range.ofLength_eq_ok accepted
    have := range.high.isLt
    omega
  · intro fits
    refine Range.exists_ofLength pos ?_
    rw [BitVec.toNat_allOnes]
    omega

namespace Indexes

variable (x : Indexes) (p : Passage) {mapping : DssMapping}

theorem toNat_length_pos (nonempty : mapping.length ≠ 0) : 0 < mapping.length.toNat :=
  Nat.pos_of_ne_zero fun zero => nonempty (UInt16.toNat_inj.1 zero)

/-- **What becomes of the mappings of the direction**: they take a mapping that ends inside the subflow
sequence space, and are left alone by any other. -/
theorem mappings_take (nonempty : mapping.length ≠ 0) :
    mapping.FitsSubflow ∧ x.inserted? p mapping = .ok (x.take p mapping).mappings ∨
      ¬ mapping.FitsSubflow ∧ (x.take p mapping).mappings = x.mappings := by
  have pos := toNat_length_pos nonempty
  have fits := Range.exists_ofLength_iff mapping.ssn pos
  unfold DssMapping.FitsSubflow take
  rw [← fits, if_neg (Nat.ne_of_gt pos)]
  unfold inserted? SubflowMappings.insert?
  cases Range.ofLength mapping.ssn mapping.length.toNat with
  | ok range => exact Or.inl ⟨⟨range, rfl⟩, rfl⟩
  | error e => exact Or.inr ⟨nofun, rfl⟩

/-- **What becomes of the side**: it takes a mapping that ends inside the data sequence space, counted from
its first number, and is left alone by any other. -/
theorem flow_take (nonempty : mapping.length ≠ 0) :
    x.FitsData mapping ∧ x.recorded? p mapping = .ok (x.take p mapping).flow ∨
      ¬ x.FitsData mapping ∧ (x.take p mapping).flow = x.flow := by
  have pos := toNat_length_pos nonempty
  have fits := Range.exists_ofLength_iff (x.flow.relative (x.start mapping)) pos
  unfold FitsData take
  rw [← fits, if_neg (Nat.ne_of_gt pos)]
  unfold recorded? MetaFlow.recordMapping?
  cases Range.ofLength (x.flow.relative (x.start mapping)) mapping.length.toNat with
  | ok range => exact Or.inl ⟨⟨range, rfl⟩, rfl⟩
  | error e => exact Or.inr ⟨nofun, rfl⟩

end Indexes

namespace Correlation

/-- The indexes that options act on. -/
def State.indexes (s : State) (d : Direction) : Indexes :=
  ⟨(s.link.mappings.get d).mapped, (s.connection.flow (s.link.side d)).mapped⟩

/-- The indexes of a direction, if the link is attached to an open connection. -/
def indexes? (r : MetaRegistry) (link : Option SubflowLink) (d : Direction) : Option Indexes := do
  let l ← link
  let id ← l.metaId
  let m ← r.get? id
  return ⟨(l.mappings.get d).mapped, (m.flow (l.side d)).mapped⟩

/-! ### One option -/

variable (p : Passage) (s : State)

theorem flow_fail (m : MetaConnection) (frame : Nat) (side : MetaSide) :
    (m.fail frame).flow side = m.flow side := by
  cases side <;> rfl

theorem flow_confirm (m : MetaConnection) (echo : MpCapable) (side : MetaSide) :
    (m.confirm echo).flow side = m.flow side := by
  unfold MetaConnection.confirm
  cases side <;> split <;> rfl

theorem indexes_applyMapping (mapping : DssMapping) :
    (applyMapping p s mapping).indexes p.direction = (s.indexes p.direction).take p mapping := by
  unfold applyMapping
  extract_lets frame side flow mappings dsn len analysis inserted analysis' placed
  have failing (t : State) : (if mapping.checksumValid = some false then
      { t with connection := t.connection.fail frame } else t).indexes p.direction =
        t.indexes p.direction := by
    split
    · unfold State.indexes
      rw [flow_fail]
    · rfl
  have start : (s.indexes p.direction).start mapping = dsn := by
    unfold Indexes.start dsn
    cases mapping.dsn <;> rfl
  rw [failing]
  unfold placed Indexes.take
  split
  · rw [Indexes.unbounded, start]
    show Indexes.mk (((s.link.mappings.set p.direction _).get p.direction).mapped) _ = _
    rw [Duplex.get_set_same]
    exact congrArg (Indexes.mk · _) (mappings.setInfinite_mapped mapping.ssn dsn frame).symm
  · rw [Indexes.inserted?, Indexes.recorded?, start]
    have first : (s.indexes p.direction).mappings = mappings.mapped := rfl
    have second : (s.indexes p.direction).flow = flow.mapped := rfl
    rw [first, second, mappings.insert?_mapped, flow.recordMapping?_mapped]
    have insertion : inserted.indexes p.direction =
        ⟨((mappings.insert? mapping.ssn len dsn frame).map (·.1.mapped)).toOption.getD
          mappings.mapped, flow.mapped⟩ := by
      unfold inserted
      cases mappings.insert? mapping.ssn len dsn frame with
      | error e => rfl
      | ok out =>
          show Indexes.mk (((s.link.mappings.set p.direction _).get p.direction).mapped) _ = _
          rw [Duplex.get_set_same]
          rfl
    have unmoved : inserted.link.side p.direction = side := by
      unfold inserted
      cases mappings.insert? mapping.ssn len dsn frame <;> rfl
    cases flow.recordMapping? dsn len ⟨p.stream, frame, mapping.ssn⟩ with
    | error e => exact insertion
    | ok out =>
        show Indexes.mk _ ((inserted.connection.setFlow side out.1).flow
          (inserted.link.side p.direction)).mapped = _
        rw [unmoved, MetaConnection.flow_setFlow_same]
        exact congrArg (Indexes.mk · _) (congrArg Indexes.mappings insertion)

theorem indexes_applyDataAck (dataAck : WireDataSeq) :
    (applyDataAck p s dataAck).indexes p.direction = s.indexes p.direction := by
  unfold applyDataAck State.indexes
  dsimp only
  cases s.link.side p.direction <;> rfl

theorem indexes_applyDataFin : (applyDataFin p s).indexes p.direction = s.indexes p.direction := by
  unfold applyDataFin State.indexes MetaConnection.modifyFlow
  dsimp only
  rw [MetaConnection.flow_setFlow_same]
  rfl

/-- A DSS option touches the indexes through its mapping only. -/
theorem indexes_signal (dss : Dss) :
    (signal p s dss).indexes p.direction =
      dss.mapping.elim (s.indexes p.direction) ((s.indexes p.direction).take p) := by
  have mapped : (dss.mapping.elim s (applyMapping p s)).indexes p.direction =
      dss.mapping.elim (s.indexes p.direction) ((s.indexes p.direction).take p) := by
    cases dss.mapping with
    | none => rfl
    | some mapping => exact indexes_applyMapping p s mapping
  have acked (t : State) : (dss.dataAck.elim t (applyDataAck p t)).indexes p.direction =
      t.indexes p.direction := by
    cases dss.dataAck with
    | none => rfl
    | some dataAck => exact indexes_applyDataAck p t dataAck
  unfold signal
  dsimp only
  split
  · rw [indexes_applyDataFin, acked, mapped]
  · rw [acked, mapped]

theorem indexes_applyOption (option : MultipathOption) :
    (applyOption p s option).indexes p.direction =
      option.mapping?.elim (s.indexes p.direction) ((s.indexes p.direction).take p) := by
  cases option with
  | dss dss => exact indexes_signal p s dss
  | fail dsn =>
      show Indexes.mk _ ((s.connection.fail _).flow _).mapped = _
      rw [flow_fail]
      rfl
  | _ => rfl

/-! ### One segment -/

theorem indexes_placePayload : (placePayload p s).indexes p.direction = s.indexes p.direction := by
  unfold placePayload
  split
  · rfl
  · show Indexes.mk (((s.link.mappings.set p.direction _).get p.direction).mapped) _ = _
    rw [Duplex.get_set_same]
    rfl

/-- **What a segment does to the indexes**: they take its mappings, one after the other. -/
theorem indexes_applySegment :
    (applySegment p s).indexes p.direction =
      p.segment.mappings.foldl (Indexes.take p) (s.indexes p.direction) := by
  have applied : (p.segment.multipath.foldl (applyOption p) s).indexes p.direction =
      p.segment.mappings.foldl (Indexes.take p) (s.indexes p.direction) := by
    unfold Segment.mappings
    induction p.segment.multipath generalizing s with
    | nil => rfl
    | cons option rest ih =>
        rw [List.foldl_cons, ih, indexes_applyOption, List.filterMap_cons]
        cases option.mapping? <;> rfl
  rw [← applied]
  exact indexes_placePayload p _

variable (r : MetaRegistry) (link : Option SubflowLink)

theorem indexes?_of_open {r : MetaRegistry} {l : SubflowLink} {id : Nat} {m : MetaConnection}
    (attached : l.metaId = some id) (found : r.get? id = some m) (d : Direction) :
    indexes? r (some l) d = some ⟨(l.mappings.get d).mapped, (m.flow (l.side d)).mapped⟩ := by
  rw [indexes?, Option.bind_eq_bind, Option.bind_some, attached, Option.bind_eq_bind,
    Option.bind_some, found]
  rfl

/-- Options keep the indexes where they are: a link that is not attached to an open connection has none
and gets none. -/
theorem indexes?_heard :
    indexes? (heard r link p).registry (heard r link p).link p.direction =
      (indexes? r link p.direction).map fun x => p.segment.mappings.foldl (Indexes.take p) x := by
  unfold heard
  cases link with
  | none => rfl
  | some l =>
      dsimp only
      cases attached : l.metaId with
      | none => simp only [indexes?, Option.bind_eq_bind, Option.bind_some, attached,
          Option.bind_none, Option.map_none]
      | some id =>
          cases found : r.get? id with
          | none => simp only [indexes?, Option.bind_eq_bind, Option.bind_some, attached, found,
              Option.bind_none, Option.map_none]
          | some m =>
              let s : State := ⟨l, m, { metaId := some id, orphan := l.isOrphan }⟩
              have still : (applySegment p s).link.metaId = some id :=
                (congrArg SubflowLink.metaId (hears_applySegment p s).part).trans attached
              rw [indexes?_of_open attached found]
              simp only [found]
              refine (indexes?_of_open still (r.get?_modify_same found _) _).trans ?_
              exact congrArg some (indexes_applySegment p s)

/-- An attached link keeps its indexes through the handshake. -/
theorem indexes?_handshake {d : Direction} {x : Indexes} (there : indexes? r link d = some x) :
    indexes? (handshake r link p).1 (handshake r link p).2 d = some x := by
  obtain ⟨l, rfl, rest⟩ := Option.bind_eq_some_iff.1 there
  obtain ⟨id, attached, rest⟩ := Option.bind_eq_some_iff.1 rest
  obtain ⟨m, found, -⟩ := Option.bind_eq_some_iff.1 rest
  have shaken := shaken_handshake r (some l) p
  generalize handshake r (some l) p = result at shaken
  cases shaken with
  | stays link' same =>
      rcases same with rfl | ⟨unattached, -⟩
      · exact there
      · exact nomatch attached.symm.trans unattached
  | joins id' m' clientDirection option plain known => cases plain
  | opens l' answer answers =>
      obtain rfl := Option.some.inj answers.offered
      exact nomatch attached.symm.trans answers.unattached
  | confirms id' l' echo echoes =>
      obtain rfl := Option.some.inj echoes.linked
      obtain rfl := Option.some.inj (attached.symm.trans echoes.attached)
      rw [← there, indexes?_of_open attached found]
      refine (indexes?_of_open attached (r.get?_modify_same found _) d).trans ?_
      rw [flow_confirm]

/-- A segment's mappings go into the indexes its subflow has by the end of the handshake. -/
theorem indexes?_correlate :
    indexes? (correlate r link p).registry (correlate r link p).link p.direction =
      (indexes? (handshake r link p).1 (handshake r link p).2 p.direction).map
        fun x => p.segment.mappings.foldl (Indexes.take p) x := by
  rw [correlate_eq, indexes?_heard]
  unfold hearing
  cases (handshake r link p).2 with
  | none =>
      rw [Option.none_or]
      split <;> rfl
  | some l => rfl

/-- **Each index takes a mapping by itself.**  Of a subflow that is attached by the end of the handshake, and
a segment with one mapping of some bytes: the mappings of the direction take it exactly if it ends inside the
subflow sequence space, and the side takes it exactly if it ends inside that of the data.  An index that does
not take it is what it was; so the mapping is in both or in neither wherever it fits into both or neither. -/
theorem indexed_apart {before : Indexes} {mapping : DssMapping}
    (attached : indexes? (handshake r link p).1 (handshake r link p).2 p.direction = some before)
    (only : p.segment.mappings = [mapping]) (nonempty : mapping.length ≠ 0) :
    (∀ x, indexes? r link p.direction = some x → x = before) ∧
      ∃ after, indexes? (correlate r link p).registry (correlate r link p).link p.direction =
          some after ∧
        (mapping.FitsSubflow ∧ before.inserted? p mapping = .ok after.mappings ∨
          ¬ mapping.FitsSubflow ∧ after.mappings = before.mappings) ∧
        (before.FitsData mapping ∧ before.recorded? p mapping = .ok after.flow ∨
          ¬ before.FitsData mapping ∧ after.flow = before.flow) ∧
        ((mapping.FitsSubflow ↔ before.FitsData mapping) → before.Together after p mapping) := by
  refine ⟨fun x there => ?_, before.take p mapping, ?_, before.mappings_take p nonempty,
    before.flow_take p nonempty, fun alike => ?_⟩
  · exact Option.some.inj ((indexes?_handshake p r link there).symm.trans attached)
  · rw [indexes?_correlate, attached, only]
    rfl
  · rcases before.mappings_take p nonempty with ⟨fits, taken⟩ | ⟨outside, kept⟩
    · rcases before.flow_take p nonempty with ⟨-, recorded⟩ | ⟨outside, -⟩
      · exact Or.inl ⟨taken, recorded⟩
      · exact absurd (alike.1 fits) outside
    · rcases before.flow_take p nonempty with ⟨fits, -⟩ | ⟨-, same⟩
      · exact absurd (alike.2 fits) outside
      · exact Or.inr (congrArg₂ Indexes.mk kept same)

/-! ### One index without the other -/

/-- A connection that a client opens without a key, and the server answers without one. -/
def keylessOpening : List Call :=
  let client : Endpoint := ⟨.v4 0x0a000001, 40000⟩
  let server : Endpoint := ⟨.v4 0x0a000002, 443⟩
  [{ segment := { source := client, destination := server, flags.syn := true
                  sack := .ofList [], multipath := [.capable {}] } },
    { segment := { source := server, destination := client, ack := 1, flags.syn := true
                   flags.ack := true, sack := .ofList [], multipath := [.capable {}] } }]

/-- A segment of the client with one mapping. -/
def mappingSegment (mapping : DssMapping) : Passage where
  stream := 0
  direction := .reverse
  segment := { source := ⟨.v4 0x0a000001, 40000⟩, destination := ⟨.v4 0x0a000002, 443⟩
               seq := 1, ack := 1, flags.ack := true, frame := 3
               sack := .ofList [], multipath := [.dss { mapping := some mapping }] }
  relSeq := 1

/-- A mapping of the last data byte and one more stands in the mappings of its direction alone. -/
theorem indexed_apart_past_data :
    let s := (Session.new {}).after keylessOpening
    let mapping : DssMapping := { dsn := .wide 0xffffffffffffffff, ssn := 1, length := 2 }
    let p := mappingSegment mapping
    ∃ c, s.table.get? 0 = some c ∧ ∃ before after,
      (indexes? (handshake s.registry c.link p).1 (handshake s.registry c.link p).2 p.direction =
          some before ∧ p.segment.mappings = [mapping] ∧ mapping.length ≠ 0) ∧
        indexes? (correlate s.registry c.link p).registry (correlate s.registry c.link p).link
          p.direction = some after ∧
        before.inserted? p mapping = .ok after.mappings ∧ after.flow = before.flow := by
  intro s mapping p
  have live : (s.table.get? 0).map (fun c =>
      indexes? (handshake s.registry c.link p).1 (handshake s.registry c.link p).2 p.direction) =
        some (some ⟨{}, {}⟩) := by decide +kernel
  obtain ⟨c, found, attached⟩ := Option.map_eq_some_iff.1 live
  have only : p.segment.mappings = [mapping] := rfl
  obtain ⟨-, after, later, inSubflow, inData, -⟩ :=
    indexed_apart p s.registry c.link attached only (by decide)
  refine ⟨c, found, ⟨{}, {}⟩, after, ⟨attached, rfl, by decide⟩, later, ?_, ?_⟩
  · rcases inSubflow with ⟨-, taken⟩ | ⟨outside, -⟩
    · exact taken
    · exact absurd (by unfold DssMapping.FitsSubflow; decide) outside
  · rcases inData with ⟨fits, -⟩ | ⟨-, same⟩
    · exact absurd fits (by unfold Indexes.FitsData; decide)
    · exact same

/-- A mapping of the last subflow byte and one more stands in the data sequence space alone. -/
theorem not_together_past_subflow :
    let s := (Session.new {}).after keylessOpening
    let mapping : DssMapping := { dsn := .wide 0, ssn := 0xffffffff, length := 2 }
    let p := mappingSegment mapping
    ∃ c, s.table.get? 0 = some c ∧ ∃ before after,
      indexes? s.registry c.link p.direction = some before ∧ p.segment.mappings = [mapping] ∧
        mapping.length ≠ 0 ∧
        indexes? (correlate s.registry c.link p).registry (correlate s.registry c.link p).link
          p.direction = some after ∧
        ¬ before.Together after p mapping := by
  intro s mapping p
  let spans : IntervalTree 64 DsnSpan :=
    .node .black .nil ⟨0, 1, by decide⟩ ⟨0, 3, 0xffffffff⟩ 1 .nil
  have live : (s.table.get? 0).map (fun c =>
      (indexes? s.registry c.link p.direction,
        indexes? (correlate s.registry c.link p).registry (correlate s.registry c.link p).link
          p.direction)) =
        some (some ⟨{}, {}⟩, some ⟨{}, { nextDsn := some 2, spans }⟩) := by decide +kernel
  obtain ⟨c, found, both⟩ := Option.map_eq_some_iff.1 live
  obtain ⟨there, later⟩ := Prod.mk.inj both
  refine ⟨c, found, _, _, there, rfl, by decide, later, ?_⟩
  rintro (⟨taken, -⟩ | same)
  · exact nomatch taken
  · exact absurd (congrArg (·.flow.nextDsn) same) (by decide)

end Correlation

end TcpCapture
