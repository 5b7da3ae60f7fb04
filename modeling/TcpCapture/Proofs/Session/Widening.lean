import TcpCapture.Proofs.Multipath.Widening
import TcpCapture.Proofs.Session.Run

/-!
# Runs with numbers sent in half

Multipath options are read in one place only, where a segment is correlated.  So a whole run is the same
whether data sequence numbers are sent whole or in half, as long as each of them is near where its side has
got by then.

## Main definitions

* `Session.listening?` — what the options of a call act on
* `Session.staysInReach` — in a run, every number that is sent whole is near where its side has got by then
* `Call.Shortens` — a call, and the same one with some of its numbers cut to the low half
* `widening_exact` — what a low half stands for, and runs with numbers sent in half

**One state for both runs.**  A call that does the same in both forms leaves the same sides behind, so the
next call finds them in the same place in both runs.
-/

namespace TcpCapture

namespace Connection

section

variable (c : Connection) (registry : MetaRegistry) (config : Config) (probe : Option LengthProbe)
  (d : Direction) (s : Segment) (options : List MultipathOption)

/-- What the options of a segment act on in a connection. -/
def listening? : Option Correlation.State :=
  if config.multipath then
    Correlation.listening? registry (c.judged config d s).1.link (c.passage config d s)
  else none

variable {c registry config d s options}
  (shorter : List.Forall₂ MultipathOption.Shortens s.multipath options)
  (reach : ∀ t ∈ c.listening? registry config d s,
    Correlation.allInReach (c.passage config d s) t s.multipath = true)

include shorter reach

theorem correlated_of_shortens :
    c.correlated registry config d (s.signalling options) = c.correlated registry config d s := by
  have same : s.SameTransport (s.signalling options) := rfl
  unfold listening? at reach
  unfold correlated
  rw [c.judged_congr config d same, c.passage_congr config d same]
  split
  · rename_i on
    rw [if_pos on] at reach
    exact Correlation.correlate_of_shortens shorter reach
  · rfl

/-- **Handling does not show which way numbers in reach are sent.** -/
theorem handle_of_shortens :
    c.handle registry config probe d (s.signalling options) = c.handle registry config probe d s :=
  c.handle_congr registry config probe d rfl (correlated_of_shortens shorter reach)

end

end Connection

/-- The second call is the first one, where the numbers of its DSS options may be cut to their low half. -/
structure Call.Shortens (call call' : Call) : Prop where
  options : List.Forall₂ MultipathOption.Shortens call.segment.multipath call'.segment.multipath
  others : call' = { call with segment := call.segment.signalling call'.segment.multipath }

namespace Session

/-- What the options of a call act on, and the segment on its way there. -/
def listening? (s : Session) (call : Call) : Option (Passage × Correlation.State) := do
  let r ← (s.resolved call).toOption
  let c ← r.session.table.get? r.stream
  let state ← c.listening? r.session.registry r.session.config call.direction call.segment
  return (c.passage r.session.config call.direction call.segment, state)

/-- Every number that the call sends whole is near where its side has got when its turn comes. -/
def isInReach (s : Session) (call : Call) : Bool :=
  (s.listening? call).all fun x => Correlation.allInReach x.1 x.2 call.segment.multipath

/-- In a run, every number that is sent whole is near where its side has got when its turn comes. -/
def staysInReach : Session → List Call → Bool
  | _, [] => true
  | s, call :: rest => s.isInReach call && (s.take call).session.staysInReach rest

/-- **One call** does the same in either form. -/
theorem take_of_shortens {s : Session} {call call' : Call} (reach : s.isInReach call = true)
    (shorter : call.Shortens call') : s.take call' = s.take call := by
  obtain ⟨options, others⟩ := shorter
  generalize call'.segment.multipath = options' at options others
  rw [others]
  have resolved : s.resolved { call with segment := call.segment.signalling options' } =
      s.resolved call := rfl
  cases ok : s.resolved call with
  | error e =>
      rw [take_of_refused ok, take_of_refused (resolved.trans ok)]
      rfl
  | ok r =>
      rw [take_of_resolved ok, take_of_resolved (resolved.trans ok)]
      show r.handle call.direction (call.segment.signalling options') call.probe (s.sweepReports call) = _
      cases found : r.session.table.get? r.stream with
      | none =>
          unfold Resolved.handle
          simp only [found]
          rfl
      | some c =>
          have heard : ∀ t ∈ c.listening? r.session.registry r.session.config call.direction call.segment,
              Correlation.allInReach (c.passage r.session.config call.direction call.segment) t
                call.segment.multipath = true := by
            intro t listening
            refine (Option.all_eq_true _ _).1 reach (_, t) ?_
            unfold listening?
            rw [ok]
            show (r.session.table.get? r.stream).bind _ = _
            rw [found, Option.bind_some]
            exact Option.bind_eq_some_iff.2 ⟨t, listening, rfl⟩
          rw [Resolved.handle_of_found found, Resolved.handle_of_found found,
            Connection.handle_of_shortens call.probe options heard]
          rfl

/-- **A run** is the same in either form: the states after each call are, and so is what it says. -/
theorem run_of_shortens {s : Session} {calls calls' : List Call} (reach : s.staysInReach calls = true)
    (shorter : List.Forall₂ Call.Shortens calls calls') :
    s.run calls' = s.run calls ∧ s.after calls' = s.after calls := by
  induction shorter generalizing s with
  | nil => exact ⟨rfl, rfl⟩
  | @cons call call' rest rest' first _ ih =>
      obtain ⟨now, later⟩ := Bool.and_eq_true_iff.1 reach
      have taken := take_of_shortens now first
      obtain ⟨run, after⟩ := ih later
      constructor
      · rw [run_cons, run_cons, taken, run]
      · show (s.take call').session.after rest' = (s.take call).session.after rest
        rw [taken, after]

/-- **Widening is exact within half a turn.**  A low half comes back as the number it was cut from, if that is
less than half a turn from where the side has got.  Whatever a low half stands for has that low half, and is
at most half a turn away.  So a run in which every number is less than half a turn from where its side has got
by then is the same run, with the same states and the same reports, if any of its numbers are sent in half. -/
theorem widening_exact :
    (∀ (f : MetaFlow) (anchor d : DataSeq), f.anchor? = some anchor →
      MetaFlow.circularDistance d anchor < 0x80000000 → f.expand (.short (d.setWidth 32)) = d) ∧
    (∀ (f : MetaFlow) (anchor : DataSeq) (low : BitVec 32), f.anchor? = some anchor →
      (f.expand (.short low)).setWidth 32 = low ∧
        MetaFlow.circularDistance (f.expand (.short low)) anchor ≤ 0x80000000) ∧
    ∀ (s : Session) (calls calls' : List Call), List.Forall₂ Call.Shortens calls calls' →
      s.staysInReach calls = true → s.run calls' = s.run calls ∧ s.after calls' = s.after calls := by
  refine ⟨fun f anchor d known near => MetaFlow.expand_short_of_near known near,
    fun f anchor low known => ?_, fun s calls calls' shorter reach => run_of_shortens reach shorter⟩
  rw [MetaFlow.expand_short known]
  exact MetaFlow.nearest_spec anchor low

/-- The first number of the client's key is shortly before zero, and its second mapping comes after zero; an
acknowledgment of the server's data crosses into the next turn. -/
theorem widening_exact_across_zero :
    let client : Endpoint := ⟨.v4 0x0a000001, 40000⟩
    let server : Endpoint := ⟨.v4 0x0a000002, 443⟩
    let opening (ack : Seq) (flags : TcpFlags) (source destination : Endpoint) (key : BitVec 64) : Call :=
      { segment := { source, destination, ack, flags
                     multipath := [.capable { flags := 1, senderKey := some key }] } }
    let data (seq : Seq) (dsn : WireDataSeq) (dataAck : Option WireDataSeq) : Call :=
      { segment := { source := client, destination := server, seq, ack := 1, flags.ack := true
                     payload := [1, 2, 3, 4]
                     multipath := [.dss { dataAck, mapping := some { dsn, ssn := seq, length := 4 } }] } }
    let calls (form : DataSeq → WireDataSeq) : List Call := [
      opening 0 { syn := true } client server 665061814,
      opening 1 { syn := true, ack := true } server client 2,
      data 1 (form 0xffffffffdc3f2658) none,
      data 5 (form 0x10) (some (form 0xfa1723bf00000010))]
    let wide := calls .wide
    let short := calls fun d => .short (d.setWidth 32)
    (List.Forall₂ Call.Shortens wide short ∧ (new {}).staysInReach wide = true) ∧
      ((new {}).run short = (new {}).run wide ∧ (new {}).after short = (new {}).after wide) ∧
      (((new {}).after short).registry.get? 0).map
          (fun m => (m.client.baseDsn, m.client.nextDsn, m.client.mappedSpans)) =
        some (some 0xffffffffdc3f2657, some 0x14, 2) ∧
      (((new {}).after short).registry.get? 0).map (fun m => (m.server.baseDsn, m.server.maxDsnAcked)) =
        some (some 0xfa1723bef8656fe4, some 0xfa1723bf00000010) := by
  intro client server opening data calls wide short
  have opened (call : Call) (option : MultipathOption) (only : call.segment.multipath = [option]) :
      call.Shortens call := by
    refine ⟨?_, rfl⟩
    rw [only]
    exact .cons (.same option) .nil
  have shorter : List.Forall₂ Call.Shortens wide short := by
    refine .cons (opened _ _ rfl) (.cons (opened _ _ rfl) (.cons ⟨?_, rfl⟩ (.cons ⟨?_, rfl⟩ .nil)))
    · exact .cons (.dss ⟨.none, .some ⟨.half _, rfl⟩, rfl⟩) .nil
    · exact .cons (.dss ⟨.some (.half _), .some ⟨.half _, rfl⟩, rfl⟩) .nil
  have reach : (new {}).staysInReach wide = true := by decide +kernel
  obtain ⟨-, -, runs⟩ := widening_exact
  exact ⟨⟨shorter, reach⟩, runs (new {}) wide short shorter reach, by decide +kernel, by decide +kernel⟩

end Session

end TcpCapture
