import TcpCapture.Proofs.Session.OpeningSyn

/-!
# Repeated SYNs

A SYN that is sent again finds the connection it opened.  What the handshake made of that connection is
settled by then, and a copy of the SYN is no reason to settle it anew.

## Main definitions

* `Segment.asksMultipath` — a segment that can make a plain connection a subflow
* `RepeatedSyn` — an open connection whose SYN was answered, and a copy of that SYN
* `RepeatedSyn.Harmless` — the copy leaves the multipath outcome as it was
* `RepeatedSyn.harmless_iff` — when it does

**Declined.**  A link that stands is left alone by further SYNs.  But an answer that declines takes the link
away and leaves nothing in its place: to a copy of the SYN the connection looks as it did before the first
one, and it is made a subflow again.
-/

namespace TcpCapture

/-- The segment carries an option that can make a plain connection a subflow, or an orphan. -/
def Segment.asksMultipath (s : Segment) : Bool :=
  s.multipath.any fun
    | .capable _ | .join _ | .dss _ => true
    | _ => false

theorem Passage.asksMultipath_eq (p : Passage) :
    p.segment.asksMultipath = (p.capable?.isSome || (p.join?.isSome || p.hasSignal)) := by
  unfold Segment.asksMultipath capable? join? hasSignal
  induction p.segment.multipath with
  | nil => rfl
  | cons option rest ih =>
      cases option <;> simp [ih]

namespace Correlation

variable (r : MetaRegistry) {p : Passage}

/-- To a SYN, the handshake is the opening. -/
theorem handshake_of_opening (opening : p.segment.isOpening = true) (link : Option SubflowLink) :
    handshake r link p = Correlation.opening r link p := by
  obtain ⟨syn, ack⟩ := Bool.and_eq_true_iff.1 opening
  rw [Bool.not_eq_true'] at ack
  unfold handshake
  rw [syn, ack]

/-- What a SYN does on a subflow is up to its options; the registry keeps what is settled. -/
theorem correlate_opening_of_some (opening : p.segment.isOpening = true) (l : SubflowLink) :
    correlate r (some l) p = heard r (some l) p := by
  have shaken : handshake r (some l) p = (r, some l) := handshake_of_opening r opening (some l)
  rw [correlate_eq, hearing, shaken]
  rfl

/-- On plain TCP, a SYN without multipath options does nothing. -/
theorem correlate_opening_of_none (opening : p.segment.isOpening = true)
    (quiet : p.segment.asksMultipath = false) :
    correlate r none p = { registry := r, link := none } := by
  rw [p.asksMultipath_eq, Bool.or_eq_false_iff, Bool.or_eq_false_iff] at quiet
  obtain ⟨capable, join, signal⟩ := quiet
  rw [Option.isSome_eq_false_iff, Option.isNone_iff_eq_none] at capable join
  have shaken : handshake r none p = (r, none) := by
    rw [handshake_of_opening r opening]
    unfold Correlation.opening
    rw [capable, join]
  rw [correlate_eq, hearing, shaken, signal]
  rfl

/-- With one, it makes the connection a subflow, or an orphan. -/
theorem isSome_link_correlate_opening (opening : p.segment.isOpening = true)
    (asks : p.segment.asksMultipath = true) : (correlate r none p).link.isSome = true := by
  have hears : (hearing r none p).isSome = true := by
    rw [hearing, handshake_of_opening r opening, Option.isSome_or]
    rw [p.asksMultipath_eq] at asks
    unfold Correlation.opening
    cases capable : p.capable? with
    | some option => rfl
    | none =>
        cases join : p.join? with
        | some option => rfl
        | none =>
            rw [capable, join] at asks
            rw [show p.hasSignal = true from asks]
            rfl
  have part := congrArg Option.isSome (part_heard (handshake r none p).1 (hearing r none p) p)
  rw [Option.isSome_map, Option.isSome_map] at part
  rw [correlate_eq, part, hears]

/-- The registry and the link say the same of the multipath connections and of the part in them as before:
none opened, no token was added, and all that was settled when they opened stands. -/
structure Stands (r r' : MetaRegistry) (link link' : Option SubflowLink) : Prop where
  size : r'.size = r.size
  tokens : r'.tokens = r.tokens
  origins : ∀ id m, r.get? id = some m → ∃ m', r'.get? id = some m' ∧ m'.origin = m.origin
  part : link'.map (·.part) = link.map (·.part)

/-- What options do never opens or settles anything. -/
theorem stands_heard (link : Option SubflowLink) :
    Stands r (heard r link p).registry link (heard r link p).link where
  size := size_heard r link p
  tokens := by
    rcases heard_cases r link p with ⟨same, -, -⟩ | ⟨s, t, id, -, -, -, -, same, -⟩
    · rw [same]
    · rw [same]
      rfl
  origins id m found := by
    obtain ⟨m', found', origin, -⟩ := get?_heard r link p found
    exact ⟨m', found', origin⟩
  part := part_heard r link p

/-- **A SYN settles nothing exactly if there is a link, or it does not ask for one.** -/
theorem stands_correlate_opening_iff (opening : p.segment.isOpening = true)
    (link : Option SubflowLink) :
    Stands r (correlate r link p).registry link (correlate r link p).link ↔
      link.isSome = true ∨ p.segment.asksMultipath = false := by
  cases link with
  | some l =>
      rw [correlate_opening_of_some r opening]
      exact iff_of_true (stands_heard r (some l)) (Or.inl rfl)
  | none =>
      cases asks : p.segment.asksMultipath with
      | true =>
          have linked := isSome_link_correlate_opening r opening asks
          refine iff_of_false (fun stands => ?_) nofun
          rw [← Option.isSome_map (f := (·.part)), stands.part] at linked
          cases linked
      | false =>
          rw [correlate_opening_of_none r opening asks]
          exact iff_of_true ⟨rfl, rfl, fun _ m found => ⟨m, found, rfl⟩, rfl⟩ (Or.inr rfl)

end Correlation

open Correlation

/-- An open connection on which a SYN and an answer to it were processed, and a later copy of the first
SYN.  The connection is live when the copy is looked up, which is once idle connections are retired. -/
structure RepeatedSyn where
  config : Config
  calls : List Call
  connection : Connection
  syn : Call
  copy : Call
  multipath : config.multipath = true
  live : connection ∈ (((Session.new config).after calls).swept copy).table.live
  alive : connection.closed = false
  unfinished : connection.bothFinished = false
  initial : ((Session.new config).callsOf connection.stream calls).find? (·.segment.isOpening) = some syn
  answered : ∃ answer ∈ (Session.new config).callsOf connection.stream calls,
    answer.segment.flags.syn = true ∧ answer.segment.flags.ack = true ∧
      answer.direction = syn.direction.opposite
  same : copy.segment = { syn.segment with
    frame := copy.segment.frame
    timestamp := copy.segment.timestamp }
  later : syn.segment.frame < copy.segment.frame ∧ syn.segment.timestamp ≤ copy.segment.timestamp

namespace RepeatedSyn

variable (x : RepeatedSyn)

/-- The session before the copy. -/
def session : Session := (Session.new x.config).after x.calls

/-- The calls about the connection. -/
def known : List Call := (Session.new x.config).callsOf x.connection.stream x.calls

/-- The copy is one more call about the connection.  It opens no multipath connection and changes neither
the tokens nor what was settled when the others opened; and the connection has the link it had, if any: to
the same multipath connection, by the same key, with the client on the same side. -/
structure Harmless : Prop where
  stream : (x.session.take x.copy).stream? = some x.connection.stream
  stands : ∃ e ∈ (x.session.take x.copy).session.table.live, e.stream = x.connection.stream ∧
    Stands x.session.registry (x.session.take x.copy).session.registry x.connection.link e.link

theorem consistent : x.session.Consistent := (Session.consistent_new x.config).after x.calls

theorem live_before : x.connection ∈ x.session.table.live :=
  x.consistent.live_swept_subset x.copy x.live

theorem remembers : x.connection.Remembers x.known :=
  Session.remembers_after x.config x.calls x.connection x.live_before

theorem opening : x.copy.segment.isOpening = true := by
  have syn : x.syn.segment.isOpening = true := by simpa using List.find?_some x.initial
  rw [x.same]
  exact syn

theorem direction : x.copy.direction = x.syn.direction := by
  rw [Call.direction, x.same]
  rfl

theorem conversation : x.copy.conversation = x.connection.conversation := by
  rw [← x.remembers.conversation x.syn (List.mem_of_find?_eq_some x.initial), Call.conversation, x.same]
  rfl

/-- The copy starts over if payload was seen and its direction counts from another number. -/
theorem isPortReuse_iff :
    Session.isPortReuse x.connection x.copy.direction x.copy.segment = false ↔
      carriesData x.known = false ∨ originOf? x.known x.copy.direction = some x.copy.segment.seq := by
  have alive : isOver x.known = false := x.remembers.closed.symm.trans x.alive
  obtain ⟨origin, seen⟩ : ∃ origin, originOf? x.known x.copy.direction = some origin := by
    have found : (x.known.find? (·.direction == x.copy.direction)).isSome = true :=
      List.find?_isSome.2 ⟨x.syn, List.mem_of_find?_eq_some x.initial, beq_iff_eq.2 x.direction.symm⟩
    obtain ⟨first, found⟩ := Option.isSome_iff_exists.1 found
    exact ⟨first.segment.origin, by rw [originOf?, found]; rfl⟩
  rw [x.remembers.isPortReuse_eq, alive, Bool.false_or, seen, Option.any_some, Bool.and_eq_false_iff,
    bne_eq_false_iff_eq, Option.some_inj]

/-- The only live connection of the conversation is this one. -/
theorem eq_connection {c : Connection} (mem : c ∈ (x.session.swept x.copy).table.live)
    (own : c.conversation = x.connection.conversation) : c = x.connection := by
  obtain ⟨displaced, indexed⟩ := x.consistent.swept x.copy
  exact List.inj_on_of_nodup_map indexed.conversations mem x.live own

/-- A copy that the connection handles is harmless if there is a link, or the SYN does not ask for one. -/
theorem harmless_iff_of_handles {r : Session.Resolved}
    (handles : x.session.Handles x.copy r x.connection) :
    x.Harmless ↔ x.connection.link.isSome = true ∨ x.copy.segment.asksMultipath = false := by
  have on : r.session.config.multipath = true := by
    rw [handles.config, session, Session.config_after (Session.consistent_new x.config), ← x.multipath]
    rfl
  let p := x.connection.passage r.session.config x.copy.direction x.copy.segment
  have registry : (x.session.take x.copy).session.registry =
      (correlate x.session.registry x.connection.link p).registry := by
    rw [handles.registry_take x.consistent, Session.handled, Connection.registry_handle,
      Connection.correlated_of_multipath _ _ _ _ _ on, handles.registry]
  have part : (Session.handled x.copy r x.connection).connection.link.map (·.part) =
      (correlate x.session.registry x.connection.link p).link.map (·.part) := by
    rw [Session.handled, Connection.part_handle, Connection.correlated_of_multipath _ _ _ _ _ on,
      handles.registry]
  have live := handles.mem_live_take x.consistent
  have identity := handles.sameIdentity.stream
  have settled := stands_correlate_opening_iff x.session.registry (p := p) x.opening x.connection.link
  refine Iff.trans ⟨?_, fun stands => ?_⟩ settled
  · rintro ⟨-, e, mem, same, size, tokens, origins, kept⟩
    -- the connection with this number is the one that handled the copy
    obtain ⟨displaced, indexed⟩ := handles.take_consistent x.consistent
    obtain rfl := List.inj_on_of_nodup_map indexed.nodup_streams mem live (same.trans identity.symm)
    rw [registry] at size tokens origins
    exact ⟨size, tokens, origins, part.symm.trans kept⟩
  · refine ⟨handles.stream?_take x.consistent, _, live, identity, ?_⟩
    rw [registry]
    exact ⟨stands.size, stands.tokens, stands.origins, part.trans stands.part⟩

/-- **A copy of an answered SYN is harmless if and only if** the direction counts from the SYN if payload
was seen, and the connection has a link unless the SYN does not ask for one. -/
theorem harmless_iff :
    x.Harmless ↔
      (carriesData x.known = false ∨ originOf? x.known x.copy.direction = some x.copy.segment.seq) ∧
        (x.connection.link.isSome = true ∨ x.copy.segment.asksMultipath = false) := by
  rw [← x.isPortReuse_iff]
  rcases Session.opening_cases x.consistent x.opening with
    ⟨r, c, handles, mem, goesOn⟩ | ⟨⟨r, handles⟩, replaced⟩
  · obtain rfl := x.eq_connection mem (handles.conversation.trans x.conversation)
    rw [x.harmless_iff_of_handles handles, and_iff_right goesOn]
  · refine iff_of_false (fun harmless => ?_) ?_
    · -- the copy opens a connection, with the next number
      have stream := (handles.stream?_take x.consistent).symm.trans harmless.stream
      obtain ⟨displaced, indexed⟩ := x.consistent
      exact absurd (Option.some.inj stream) (Nat.ne_of_gt (indexed.stream_lt _ x.live_before))
    · rintro ⟨goesOn, -⟩
      rw [replaced x.connection x.live x.conversation.symm] at goesOn
      cases goesOn

/-- The server declines and the connection is plain TCP; the SYN comes again, and it is a subflow. -/
theorem not_harmless : ¬ ∀ x : RepeatedSyn, x.Harmless := by
  intro all
  let client : Endpoint := ⟨.v4 0x0a000001, 40000⟩
  let server : Endpoint := ⟨.v4 0x0a000002, 443⟩
  let syn (frame : Nat) : Call := {
    segment := {
      source := client, destination := server, seq := 99, flags.syn := true, frame
      multipath := [.capable { flags := 1, senderKey := some 1 }] } }
  let answer : Call := {
    segment := {
      source := server, destination := client, seq := 4999, ack := 100, frame := 2
      flags := { syn := true, ack := true } } }
  have streams : (((Session.new {}).after [syn 1, answer]).swept (syn 3)).table.live.map (·.stream) =
      [0] := by
    decide +kernel
  obtain ⟨c, mem, stream⟩ := List.mem_map.1 (streams ▸ List.mem_singleton_self 0)
  have plain : ∀ c ∈ (((Session.new {}).after [syn 1, answer]).swept (syn 3)).table.live,
      c.closed = false ∧ c.bothFinished = false ∧ c.link = none := by decide +kernel
  have linked : ∀ e ∈ (((Session.new {}).after [syn 1, answer]).take (syn 3)).session.table.live,
      e.link.isSome = true := by
    decide +kernel
  have calls : (Session.new {}).callsOf c.stream [syn 1, answer] = [syn 1, answer] :=
    Session.callsOf_eq_self (by rw [stream]; decide +kernel)
  obtain ⟨alive, unfinished, none⟩ := plain c mem
  have answered : answer ∈ (Session.new {}).callsOf c.stream [syn 1, answer] := by
    rw [calls]
    exact List.mem_cons_of_mem _ List.mem_cons_self
  obtain ⟨-, e, mem', -, stands⟩ := all {
    config := {}, calls := [syn 1, answer], connection := c, syn := syn 1, copy := syn 3
    multipath := rfl, live := mem, alive, unfinished
    initial := by rw [calls]; rfl
    answered := ⟨answer, answered, rfl, rfl, rfl⟩
    same := rfl
    later := by decide }
  dsimp only [session] at mem'
  have part := congrArg Option.isSome stands.part
  rw [Option.isSome_map, Option.isSome_map, linked e mem', none] at part
  cases part

end RepeatedSyn

end TcpCapture
