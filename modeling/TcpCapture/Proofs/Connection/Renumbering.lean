import TcpCapture.Proofs.Connection.Mapping
import TcpCapture.Proofs.Flow.Renumbering

/-!
# Connections whose numbering starts elsewhere

Nothing in a connection but its flows holds sequence numbers as they were sent, and the table never
looks into the flows: it finds connections by stream number and by conversation.

## Main definitions

* `Connection.renumber` — a connection when its two directions start to count elsewhere
* `Connection.shifted` — the same where every conversation has its own constants
* `ConnectionTable.renumber` — a table of such connections
-/

namespace TcpCapture

/-! ### One connection -/

namespace Connection

/-- The connection when each direction counts from `shift` numbers later. -/
def renumber (shift : Direction → Seq) (c : Connection) : Connection :=
  { c with
    flows := ⟨c.flows.forward.renumber (shift .forward) (shift .reverse),
      c.flows.reverse.renumber (shift .reverse) (shift .forward)⟩ }

variable (shift : Direction → Seq) (c : Connection) (d : Direction)

theorem flow_renumber :
    (c.renumber shift).flow d = (c.flow d).renumber (shift d) (shift d.opposite) := by
  cases d <;> rfl

theorem setFlow_renumber (f : Flow) :
    (c.renumber shift).setFlow d (f.renumber (shift d) (shift d.opposite)) =
      (c.setFlow d f).renumber shift := by
  cases d <;> rfl

theorem setFlows_renumber (sender peer : Flow) :
    (c.renumber shift).setFlows d (sender.renumber (shift d) (shift d.opposite))
        (peer.renumber (shift d.opposite) (shift d)) =
      (c.setFlows d sender peer).renumber shift := by
  cases d <;> rfl

variable (s : Segment)

/-- A segment of direction `d` when both directions start to count elsewhere. -/
abbrev renumbered (shift : Direction → Seq) (d : Direction) (s : Segment) : Segment :=
  s.renumber (shift d) (shift d.opposite)

theorem noteHandshake_renumber :
    (c.renumber shift).noteHandshake d (renumbered shift d s) =
      (c.noteHandshake d s).renumber shift := by
  have syn : (renumbered shift d s).flags.syn = s.flags.syn := rfl
  have ack : (renumbered shift d s).flags.ack = s.flags.ack := rfl
  unfold noteHandshake
  rw [syn, ack]
  cases s.flags.syn with
  | true => rfl
  | false => cases s.flags.ack <;> rfl

theorem negotiateWindowScale_renumber :
    (c.renumber shift).negotiateWindowScale d (renumbered shift d s) =
      (c.negotiateWindowScale d s).renumber shift := by
  have syn : (renumbered shift d s).flags.syn = s.flags.syn := rfl
  have ack : (renumbered shift d s).flags.ack = s.flags.ack := rfl
  unfold negotiateWindowScale
  rw [flow_renumber, flow_renumber, Direction.opposite_opposite, syn, ack]
  cases s.flags.syn with
  | false => rfl
  | true =>
      simp only [Bool.not_true, Bool.false_eq_true, if_false]
      rw [apply_ite (renumber shift), ← setFlows_renumber, ← setFlow_renumber]
      rfl

end Connection

/-! ### The table -/

/-- A connection of a session in which every direction counts from `shift` numbers later. -/
def Connection.shifted (shift : Conversation → Direction → Seq) (c : Connection) : Connection :=
  c.renumber (shift c.conversation)

/-- Where numbers start is nothing the table looks at. -/
theorem Connection.unnoticed_shifted (shift : Conversation → Direction → Seq) :
    Connection.Unnoticed (·.shifted shift) where
  stream _ := rfl
  conversation _ := rfl
  tsPrev _ := rfl
  start _ _ _ := rfl
  active _ _ := rfl

/-- The table of such connections. -/
def ConnectionTable.renumber (shift : Conversation → Direction → Seq) (t : ConnectionTable) :
    ConnectionTable :=
  { t with live := t.live.map (·.shifted shift) }

end TcpCapture
