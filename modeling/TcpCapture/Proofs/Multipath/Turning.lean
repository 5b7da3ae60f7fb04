import TcpCapture.Multipath.Correlation
import TcpCapture.Proofs.Orientation

/-!
# Subflows of a turned conversation

Where the endpoints of a subflow come in the opposite order, its link has both directions changed over:
that of the client, and the mappings announced in either.  Which side of the multipath connection sends
is then told from the other direction, and comes out the same.  So correlating a segment does the same to
the registry, and to the link what it would have done, changed over.

## Main definitions

* `SubflowLink.turn`, `Passage.turn` — a link and a segment in a turned conversation
* `correlate_turn` — correlating commutes with turning
-/

namespace TcpCapture

namespace SubflowLink

/-- The link of a turned conversation. -/
def turn (l : SubflowLink) (turned : Bool) : SubflowLink :=
  { l with
    clientDirection := l.clientDirection.turn turned
    mappings := l.mappings.turn turned }

variable (l : SubflowLink) (d : Direction) (turned : Bool)

/-- The same side sends, in the other direction. -/
@[simp] theorem side_turn : (l.turn turned).side (d.turn turned) = l.side d := by
  unfold side turn
  simp only [Direction.turn_inj]

@[simp] theorem get_mappings_turn :
    (l.turn turned).mappings.get (d.turn turned) = l.mappings.get d := l.mappings.get_turn d turned

@[simp] theorem setMappings_turn (m : SubflowMappings) :
    (l.turn turned).setMappings (d.turn turned) m = (l.setMappings d m).turn turned :=
  congrArg (fun mappings => { l.turn turned with mappings }) (l.mappings.set_turn d m turned)

end SubflowLink

/-- The segment in a turned conversation. -/
def Passage.turn (p : Passage) (turned : Bool) : Passage :=
  { p with direction := p.direction.turn turned }

namespace Correlation

variable (r : MetaRegistry) (link : Option SubflowLink) (p : Passage) (turned : Bool)

/-! ### Handshake -/

theorem joinBy_turn (option : MpJoin) :
    joinBy r (p.turn turned) option =
      ((joinBy r p option).1, (joinBy r p option).2.turn turned) := by
  have link (metaId : Option Nat) (d : Direction) : SubflowLink.join metaId (d.turn turned) option =
      (SubflowLink.join metaId d option).turn turned := by
    cases turned <;> rfl
  unfold joinBy
  dsimp only
  split
  · rename_i metaId receiver found
    cases receiver with
    | client => exact congrArg (_, ·) (Direction.opposite_turn _ _ ▸ link (some metaId) _)
    | server => exact congrArg (_, ·) (link (some metaId) _)
  · exact congrArg (r, ·) (link none _)

theorem opening_turn :
    opening r (link.map (·.turn turned)) (p.turn turned) =
      ((opening r link p).1, (opening r link p).2.map (·.turn turned)) := by
  have initial (d : Direction) (key : Option (BitVec 64)) : SubflowLink.initial (d.turn turned) key =
      (SubflowLink.initial d key).turn turned := by
    cases turned <;> rfl
  have capable : (p.turn turned).capable? = p.capable? := rfl
  have join : (p.turn turned).join? = p.join? := rfl
  unfold opening
  rw [capable, join]
  cases link with
  | some link => rfl
  | none =>
      cases p.capable? with
      | some option => exact congrArg (fun link => (r, some link)) (initial _ _)
      | none =>
          cases p.join? with
          | some option =>
              dsimp only [Option.map_none]
              rw [joinBy_turn]
              rfl
          | none => rfl

theorem answer_turn :
    answer r (link.map (·.turn turned)) (p.turn turned) =
      ((answer r link p).1, (answer r link p).2.map (·.turn turned)) := by
  have capable : (p.turn turned).capable? = p.capable? := rfl
  unfold answer
  rw [capable]
  cases link with
  | none => rfl
  | some link =>
      have settled : ((link.turn turned).joined || (link.turn turned).metaId.isSome) =
          (link.joined || link.metaId.isSome) := rfl
      simp only [Option.map_some]
      rw [settled]
      split
      · rfl
      · cases p.capable? <;> rfl

theorem confirmation_turn :
    confirmation r (link.map (·.turn turned)) (p.turn turned) = confirmation r link p := by
  have capable : (p.turn turned).capable? = p.capable? := rfl
  unfold confirmation
  rw [capable]
  cases link with
  | none => rfl
  | some link => cases p.capable? <;> rfl

theorem handshake_turn :
    handshake r (link.map (·.turn turned)) (p.turn turned) =
      ((handshake r link p).1, (handshake r link p).2.map (·.turn turned)) := by
  have flags : (p.turn turned).segment.flags = p.segment.flags := rfl
  unfold handshake
  rw [flags]
  cases p.segment.flags.syn <;> cases p.segment.flags.ack
  · rfl
  · exact congrArg (·, _) (confirmation_turn r link p turned)
  · exact opening_turn r link p turned
  · exact answer_turn r link p turned

/-! ### Data -/

/-- The state that options act on, in a turned conversation. -/
def State.turn (s : State) (turned : Bool) : State := { s with link := s.link.turn turned }

variable (s : State)

theorem applyMapping_turn (mapping : DssMapping) :
    applyMapping (p.turn turned) (s.turn turned) mapping = (applyMapping p s mapping).turn turned := by
  unfold applyMapping State.turn Passage.turn
  simp only [SubflowLink.side_turn, SubflowLink.get_mappings_turn, SubflowLink.setMappings_turn]
  -- both indexes are asked the same, whichever way round the link is kept
  repeat' split
  all_goals rfl

theorem applyDataAck_turn (dataAck : WireDataSeq) :
    applyDataAck (p.turn turned) (s.turn turned) dataAck = (applyDataAck p s dataAck).turn turned := by
  unfold applyDataAck State.turn Passage.turn
  dsimp only
  rw [SubflowLink.side_turn]

theorem applyDataFin_turn :
    applyDataFin (p.turn turned) (s.turn turned) = (applyDataFin p s).turn turned := by
  unfold applyDataFin State.turn Passage.turn
  dsimp only
  rw [SubflowLink.side_turn]

theorem signal_turn (dss : Dss) :
    signal (p.turn turned) (s.turn turned) dss = (signal p s dss).turn turned := by
  have mapped : dss.mapping.elim (s.turn turned) (applyMapping (p.turn turned) (s.turn turned)) =
      (dss.mapping.elim s (applyMapping p s)).turn turned := by
    cases dss.mapping with
    | none => rfl
    | some mapping => exact applyMapping_turn p turned s mapping
  have acked (s : State) :
      dss.dataAck.elim (s.turn turned) (applyDataAck (p.turn turned) (s.turn turned)) =
        (dss.dataAck.elim s (applyDataAck p s)).turn turned := by
    cases dss.dataAck with
    | none => rfl
    | some dataAck => exact applyDataAck_turn p turned s dataAck
  unfold signal
  dsimp only
  rw [mapped, acked]
  split
  · exact applyDataFin_turn p turned _
  · rfl

theorem applyOption_turn (option : MultipathOption) :
    applyOption (p.turn turned) (s.turn turned) option = (applyOption p s option).turn turned := by
  cases option with
  | dss dss => exact signal_turn p turned s dss
  | _ => rfl

theorem placePayload_turn :
    placePayload (p.turn turned) (s.turn turned) = (placePayload p s).turn turned := by
  unfold placePayload State.turn Passage.turn
  simp only [SubflowLink.get_mappings_turn, SubflowLink.setMappings_turn]
  split
  · rfl
  · rfl

/-- **What a segment says about a connection** does not depend on which way round its link is kept. -/
theorem applySegment_turn :
    applySegment (p.turn turned) (s.turn turned) = (applySegment p s).turn turned := by
  have options (os : List MultipathOption) (s : State) :
      os.foldl (applyOption (p.turn turned)) (s.turn turned) =
        (os.foldl (applyOption p) s).turn turned := by
    induction os generalizing s with
    | nil => rfl
    | cons o rest ih => rw [List.foldl_cons, applyOption_turn, ih, List.foldl_cons]
  unfold applySegment
  rw [show (p.turn turned).segment = p.segment from rfl, options, placePayload_turn]
  rfl

end Correlation

/-- What correlating led to, in a turned conversation. -/
def Correlated.turn (x : Correlated) (turned : Bool) : Correlated :=
  { x with link := x.link.map (·.turn turned) }

open Correlation in
/-- **Correlating does not depend on which way round the link is kept.** -/
theorem correlate_turn (r : MetaRegistry) (link : Option SubflowLink) (p : Passage) (turned : Bool) :
    correlate r (link.map (·.turn turned)) (p.turn turned) = (correlate r link p).turn turned := by
  have signals : (p.turn turned).hasSignal = p.hasSignal := rfl
  have orphan (link : Option SubflowLink) :
      (link.map (·.turn turned)).or
          (if p.hasSignal then some (.orphan (p.turn turned).direction) else none) =
        (link.or (if p.hasSignal then some (.orphan p.direction) else none)).map (·.turn turned) := by
    cases link with
    | some link => rfl
    | none =>
        cases p.hasSignal with
        | false => rfl
        | true => cases turned <;> rfl
  unfold correlate
  rw [handshake_turn, signals]
  dsimp only
  rw [orphan]
  cases (handshake r link p).2.or (if p.hasSignal then some (.orphan p.direction) else none) with
  | none => rfl
  | some own =>
      have attached : (own.turn turned).metaId = own.metaId := rfl
      dsimp only [Option.map_some]
      rw [attached]
      cases own.metaId with
      | none => rfl
      | some metaId =>
          dsimp only
          cases (handshake r link p).1.get? metaId with
          | none => rfl
          | some connection =>
              have applied := applySegment_turn p turned
                ⟨own, connection, { metaId := some metaId, orphan := own.isOrphan }⟩
              exact congrArg (fun s : State => Correlated.mk
                ((handshake r link p).1.modify metaId fun _ => s.connection) (some s.link)
                (some s.analysis)) applied

end TcpCapture
