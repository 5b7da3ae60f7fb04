import TcpCapture.Proofs.Session.Handling

/-!
# Streams under other numbers

The number of a stream says when its connection opened, among all connections of the session.  Without
multipath nothing depends on it: a connection under another number handles every segment alike, and
reports the same under its other number.

## Main definitions

* `Connection.relabel`, `SegmentReport.relabel`, `Delivery.relabel` — the same under other numbers
* `Connection.handle_relabel` — handling commutes with it

**Multipath is the exception.**  A subflow is registered under its stream number, which then shows in
what other subflows are told; hence `config.multipath = false`.
-/

namespace TcpCapture

variable (number : Nat → Nat)

/-- The teardown of a connection under another number. -/
def TeardownReport.relabel (t : TeardownReport) : TeardownReport :=
  { t with stream := number t.stream }

/-- The report of a segment when streams have other numbers. -/
def SegmentReport.relabel (r : SegmentReport) : SegmentReport :=
  { r with
    stream := number r.stream
    teardown := r.teardown.map (·.relabel number)
    retired := r.retired.map (·.relabel number) }

/-- A PDU of a connection under another number. -/
def Delivery.relabel (x : Delivery) : Delivery := { x with stream := number x.stream }

namespace Connection

/-- The connection under another number. -/
def relabel (c : Connection) : Connection := { c with stream := number c.stream }

variable (c : Connection) (registry registry' : MetaRegistry) (config : Config)
  (probe : Option LengthProbe) (d : Direction) (s : Segment)

theorem noteOpening_relabel :
    (c.relabel number).noteOpening d s = (c.noteOpening d s).relabel number := by
  have handshake : (c.relabel number).noteHandshake d s = (c.noteHandshake d s).relabel number := by
    unfold noteHandshake
    rw [apply_ite (relabel number), apply_ite (relabel number)]
    rfl
  have scaled (c : Connection) : (c.relabel number).negotiateWindowScale d s =
      (c.negotiateWindowScale d s).relabel number := by
    unfold negotiateWindowScale
    dsimp only
    rw [apply_ite (relabel number), apply_ite (relabel number)]
    rfl
  unfold noteOpening
  rw [handshake, scaled]
  rfl

theorem judged_relabel :
    (c.relabel number).judged config d s =
      ((c.judged config d s).1.relabel number, (c.judged config d s).2) := by
  unfold judged
  rw [noteOpening_relabel]
  rfl

theorem linked_relabel (off : config.multipath = false) :
    (c.relabel number).linked registry' config d s =
      (c.linked registry config d s).relabel number := by
  unfold linked
  rw [judged_relabel, off]
  rfl

theorem dissect_relabel (p : Passage) (stream : Nat) (found : Findings) :
    (c.relabel number).dissect config probe { p with stream } found =
      { c.dissect config probe p found with
        connection := (c.dissect config probe p found).connection.relabel number } := by
  unfold dissect
  cases probe with
  | none => rfl
  | some probe =>
      dsimp only
      split <;> rfl

theorem dissected_relabel (off : config.multipath = false) :
    (c.relabel number).dissected registry' config probe d s =
      { c.dissected registry config probe d s with
        connection := (c.dissected registry config probe d s).connection.relabel number } := by
  unfold dissected
  rw [linked_relabel number c registry registry' config d s off, judged_relabel]
  unfold passage
  rw [judged_relabel]
  exact dissect_relabel number _ config probe (c.passage config d s) _ _

theorem finished_relabel (off : config.multipath = false) :
    (c.relabel number).finished registry' config probe d s =
      { c.finished registry config probe d s with
        connection := (c.finished registry config probe d s).connection.relabel number } := by
  unfold finished
  rw [dissected_relabel number c registry registry' config probe d s off]
  unfold closeDirection
  cases s.flags.fin with
  | false => rfl
  | true => cases probe <;> rfl

theorem ended_relabel (off : config.multipath = false) :
    (c.relabel number).ended registry' config probe d s =
      ((c.ended registry config probe d s).1.relabel number,
        (c.ended registry config probe d s).2.map (·.relabel number)) := by
  unfold ended
  rw [finished_relabel number c registry registry' config probe d s off]
  generalize (c.finished registry config probe d s).connection = finished
  unfold endWith
  show (if finished.closed || !(s.flags.rst || finished.bothFinished) then _ else _) = _
  split <;> rfl

/-- **Handling does not look at the number of the connection**, nor at what is known of multipath
connections. -/
theorem handle_relabel (off : config.multipath = false) :
    (c.relabel number).handle registry' config probe d s =
      { connection := (c.handle registry config probe d s).connection.relabel number
        registry := registry'
        report := (c.handle registry config probe d s).report.relabel number
        pdus := (c.handle registry config probe d s).pdus } := by
  have record : (c.relabel number).recorded config d s = c.recorded config d s := by
    unfold recorded
    rw [judged_relabel]
    rfl
  rw [handle_eq, handle_eq, record, judged_relabel,
    dissected_relabel number c registry registry' config probe d s off,
    finished_relabel number c registry registry' config probe d s off,
    ended_relabel number c registry registry' config probe d s off]
  unfold correlated
  rw [off]
  cases config.recordHistory <;> rfl

end Connection

end TcpCapture
