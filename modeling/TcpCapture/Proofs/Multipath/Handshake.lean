import TcpCapture.Proofs.Multipath.Verdict

/-!
# What a segment does to the multipath connections

A segment has a handshake, which may attach its subflow or confirm a connection, and then options, which
are heard by the connection of the subflow if there is one by then.

## Main definitions

* `Correlation.Shaken` — all a handshake can do
* `Correlation.Opens`, `Correlation.Confirms` — a segment opens a connection, or confirms it
* `Correlation.Advances` — all a segment can do to a connection that is open
* `get?_correlate`, `opens_of_correlate` — what a segment does to connections that are open, and to
  others
* `part_correlate`, `attached_of_correlate` — what it does to the link of its subflow

**Order in a segment.**  The handshake comes first: options in the segment that confirms a connection
find it confirmed.
-/

namespace TcpCapture

namespace MetaRegistry

variable (r : MetaRegistry) {id : Nat} {m : MetaConnection}

theorem get?_modify_same (found : r.get? id = some m) (f : MetaConnection → MetaConnection) :
    (r.modify id f).get? id = some (f m) := by
  unfold get? modify at *
  rw [List.getElem?_modify_eq, found]
  rfl

theorem get?_modify_of_ne {id' : Nat} (other : id ≠ id') (f : MetaConnection → MetaConnection) :
    (r.modify id f).get? id' = r.get? id' := List.getElem?_modify_ne f r.connections other

theorem size_modify (id : Nat) (f : MetaConnection → MetaConnection) :
    (r.modify id f).size = r.size := List.length_modify f r.connections id

theorem get?_eq_none_iff : r.get? id = none ↔ r.size ≤ id := List.getElem?_eq_none_iff

theorem get?_modify_of_none (missing : r.get? id = none) (id' : Nat)
    (f : MetaConnection → MetaConnection) : (r.modify id' f).get? id = none := by
  rw [get?_eq_none_iff] at *
  rwa [size_modify]

theorem size_openConnection (clientKey : Option (BitVec 64)) (answer : MpCapable) :
    (r.openConnection clientKey answer).1.size = r.size + 1 := by
  unfold openConnection size
  rw [List.length_append, List.length_singleton]

theorem get?_openConnection_of_some (found : r.get? id = some m) (clientKey : Option (BitVec 64))
    (answer : MpCapable) : (r.openConnection clientKey answer).1.get? id = some m := by
  obtain ⟨lt, -⟩ := List.getElem?_eq_some_iff.1 found
  exact (List.getElem?_append_left lt).trans found

end MetaRegistry

namespace Correlation

/-- Number of the multipath connection a link belongs to. -/
def metaOf (link : Option SubflowLink) : Option Nat := link.bind (·.metaId)

theorem metaOf_congr {link link' : Option SubflowLink} (same : link'.map (·.part) = link.map (·.part)) :
    metaOf link' = metaOf link := by
  have part (link : Option SubflowLink) : metaOf link = metaOf (link.map (·.part)) := by
    cases link <;> rfl
  rw [part, same, ← part]

/-! ### The handshake -/

/-- The segment may open a connection: it answers the SYN of a link that is not attached. -/
structure Answers (link : Option SubflowLink) (p : Passage) (l : SubflowLink) (answer : MpCapable) :
    Prop where
  syn : p.segment.flags.syn = true
  ack : p.segment.flags.ack = true
  offered : link = some l
  unattached : l.metaId = none
  initial : l.joined = false
  capable : .capable answer ∈ p.segment.multipath

/-- The segment may confirm a connection: it comes on the first subflow and repeats keys. -/
structure Echoes (link : Option SubflowLink) (p : Passage) (id : Nat) (l : SubflowLink)
    (echo : MpCapable) : Prop where
  syn : p.segment.flags.syn = false
  ack : p.segment.flags.ack = true
  linked : link = some l
  attached : l.metaId = some id
  initial : l.joined = false
  capable : .capable echo ∈ p.segment.multipath

/-- What the handshake of a segment can do to the registry and to the link. -/
inductive Shaken (r : MetaRegistry) (link : Option SubflowLink) (p : Passage) :
    MetaRegistry × Option SubflowLink → Prop
  /-- Nothing is opened, confirmed or attached; only a link that is not attached may change. -/
  | stays (link' : Option SubflowLink) (same : link' = link ∨ metaOf link = none ∧ metaOf link' = none) :
      Shaken r link p (r, link')
  /-- A subflow joins a connection that is open. -/
  | joins (id : Nat) (m : MetaConnection) (clientDirection : Direction) (option : MpJoin)
      (plain : link = none) (found : r.get? id = some m) :
      Shaken r link p
        (r.modify id (·.addSubflow p.stream), some (.join (some id) clientDirection option))
  /-- A connection opens on the answer to a SYN. -/
  | opens (l : SubflowLink) (answer : MpCapable) (answers : Answers link p l answer) :
      Shaken r link p ((r.openConnection l.synKey answer).1.modify r.size (·.addSubflow p.stream),
        some { l with metaId := some r.size })
  /-- A connection is confirmed, or refuted. -/
  | confirms (id : Nat) (l : SubflowLink) (echo : MpCapable) (echoes : Echoes link p id l echo) :
      Shaken r link p (r.modify id (·.confirm echo), link)

theorem capable_mem {p : Passage} {option : MpCapable} (found : p.capable? = some option) :
    .capable option ∈ p.segment.multipath := by
  obtain ⟨first, mem, same⟩ := List.exists_of_findSome?_eq_some found
  cases first with
  | capable option' =>
      obtain rfl := Option.some.inj same
      exact mem
  | _ => cases same

variable (r : MetaRegistry) (link : Option SubflowLink) (p : Passage)

theorem shaken_joinBy (option : MpJoin) :
    Shaken r none p ((joinBy r p option).1, some (joinBy r p option).2) := by
  unfold joinBy
  extract_lets found
  cases known : found with
  | none => exact .stays _ (Or.inr ⟨rfl, rfl⟩)
  | some owner =>
      obtain ⟨id, receiver⟩ := owner
      obtain ⟨token, -, known⟩ := Option.bind_eq_some_iff.1 known
      obtain ⟨id', -, known⟩ := Option.bind_eq_some_iff.1 known
      obtain ⟨m, get, known⟩ := Option.bind_eq_some_iff.1 known
      obtain ⟨receiver', -, known⟩ := Option.bind_eq_some_iff.1 known
      obtain ⟨rfl, rfl⟩ := Prod.mk.inj (Option.some.inj known)
      exact .joins id' m _ option rfl get

theorem shaken_handshake : Shaken r link p (handshake r link p) := by
  unfold handshake
  split
  · unfold opening
    split
    · exact .stays _ (Or.inl rfl)
    · exact .stays _ (Or.inr ⟨rfl, rfl⟩)
    · exact shaken_joinBy r p _
    · exact .stays _ (Or.inl rfl)
  · rename_i syn ack
    unfold answer
    split
    · exact .stays _ (Or.inl rfl)
    · rename_i l
      split
      · exact .stays _ (Or.inl rfl)
      · rename_i free
        rw [Bool.or_eq_true, not_or, Bool.not_eq_true, Bool.not_eq_true] at free
        have unattached : l.metaId = none := Option.isSome_eq_false_iff.1 free.2 |> Option.isNone_iff_eq_none.1
        split
        · exact .stays _ (Or.inr ⟨unattached, rfl⟩)
        · rename_i option capable
          exact .opens l option ⟨syn, ack, rfl, unattached, free.1, capable_mem capable⟩
  · rename_i syn ack
    unfold confirmation
    split
    · rename_i l echo capable
      split
      · rename_i id attached
        split
        · rename_i initial
          rw [Bool.and_eq_true, Bool.not_eq_true'] at initial
          exact .confirms id l echo ⟨syn, ack, rfl, attached, initial.2, capable_mem capable⟩
        · exact .stays _ (Or.inl rfl)
      · exact .stays _ (Or.inl rfl)
    · exact .stays _ (Or.inl rfl)
  · exact .stays _ (Or.inl rfl)

/-! ### The options -/

/-- Options and payload are applied to the connection of the subflow. -/
def heard (r : MetaRegistry) (link : Option SubflowLink) (p : Passage) : Correlated :=
  match link with
  | none => { registry := r, link := none }
  | some link =>
    let analysis : MultipathAnalysis := { metaId := link.metaId, orphan := link.isOrphan }
    match link.metaId with
    | none =>
      let state := if p.hasSignal then some .incorrect else none
      { registry := r, link := some link, analysis := some { analysis with state } }
    | some metaId =>
      match r.get? metaId with
      | none => { registry := r, link := some link, analysis := some analysis }
      | some connection =>
        let s := applySegment p { link, connection, analysis }
        { registry := r.modify metaId fun _ => s.connection
          link := some s.link
          analysis := some s.analysis }

/-- The link options are applied to: the one the handshake left, or that of an orphan. -/
def hearing (r : MetaRegistry) (link : Option SubflowLink) (p : Passage) : Option SubflowLink :=
  (handshake r link p).2.or (if p.hasSignal then some (.orphan p.direction) else none)

theorem correlate_eq : correlate r link p = heard (handshake r link p).1 (hearing r link p) p := rfl

/-- **Options are heard by an open connection, or by none.** -/
theorem heard_cases :
    ((heard r link p).registry = r ∧ (heard r link p).link = link ∧
        ∀ id, metaOf link = some id → r.get? id = none) ∨
      ∃ (s t : State) (id : Nat), link = some s.link ∧ s.link.metaId = some id ∧
        r.get? id = some s.connection ∧ Hears p.segment.signalsFailure s t ∧
        (heard r link p).registry = r.modify id (fun _ => t.connection) ∧
        (heard r link p).link = some t.link := by
  unfold heard
  cases link with
  | none => exact Or.inl ⟨rfl, rfl, nofun⟩
  | some l =>
      dsimp only
      split
      · rename_i unattached
        refine Or.inl ⟨rfl, rfl, fun id attached => ?_⟩
        rw [show metaOf (some l) = l.metaId from rfl, unattached] at attached
        cases attached
      · rename_i id attached
        split
        · rename_i missing
          refine Or.inl ⟨rfl, rfl, fun id' same => ?_⟩
          rw [show metaOf (some l) = l.metaId from rfl, attached] at same
          obtain rfl := Option.some.inj same
          exact missing
        · rename_i connection found
          exact Or.inr ⟨⟨l, connection, _⟩, _, id, rfl, attached, found, hears_applySegment p _, rfl, rfl⟩

/-! ### One connection -/

/-- The segment confirms a connection: it is pending, and the echo repeats both of its keys. -/
def Confirms (link : Option SubflowLink) (p : Passage) (id : Nat) (m : MetaConnection) : Prop :=
  m.state = .pending ∧ ∃ l echo, Echoes link p id l echo ∧ m.echoMatches echo = true

/-- The segment opens a connection: what is settled follows from the answer and the link.  There is no
verdict yet, unless the same segment signals a failure. -/
structure Opens (link : Option SubflowLink) (p : Passage) (id : Nat) (m : MetaConnection)
    (l : SubflowLink) (answer : MpCapable) : Prop extends Answers link p l answer where
  origin : m.origin = ((MetaConnection.ofAnswer id l.synKey answer).selectAlgorithm answer).origin
  subflows : m.subflows = [p.stream]
  state : m.state = if p.segment.signalsFailure then .incorrect
    else if answer.hmac.isSome then .pending else .noAlgorithm

/-- `m'` is the connection `m` with number `id` after a segment on a link that is attached to
`attached` by then. -/
structure Advances (link : Option SubflowLink) (attached : Option Nat) (p : Passage) (id : Nat)
    (m m' : MetaConnection) : Prop where
  origin : m'.origin = m.origin
  subflows : m'.subflows = m.subflows ∨
    metaOf link = none ∧ attached = some id ∧ m'.subflows = (m.addSubflow p.stream).subflows
  final : m.state.isTerminal = true → m'.state = m.state
  pending : m'.state = .pending → m.state = .pending
  confirmed : m'.state = .ok → m.state = .ok ∨ Confirms link p id m

namespace Advances

variable {link p}
variable {attached : Option Nat} {id : Nat} {m m' m'' : MetaConnection}

theorem refl : Advances link attached p id m m := ⟨rfl, Or.inl rfl, fun _ => rfl, fun pending => pending, Or.inl⟩

theorem hears (h : Advances link attached p id m m') (origin : m''.origin = m'.origin)
    (subflows : m''.subflows = m'.subflows)
    {failing : Bool} (state : m''.state = if failing then m'.state.failed else m'.state) :
    Advances link attached p id m m'' where
  origin := origin.trans h.origin
  subflows := by
    rw [subflows]
    exact h.subflows
  final terminal := by
    have kept := h.final terminal
    rw [state, kept, HandshakeState.failed_of_isTerminal terminal, ite_self]
  pending pending := by
    rw [state] at pending
    split at pending
    · have terminal := HandshakeState.isTerminal_failed m'.state
      rw [pending] at terminal
      cases terminal
    · exact h.pending pending
  confirmed ok := by
    refine h.confirmed ?_
    rw [state] at ok
    split at ok
    · exact HandshakeState.eq_ok_of_failed ok
    · exact ok

end Advances

/-- **What a handshake does to a connection that is open.** -/
theorem get?_handshake {id : Nat} {m : MetaConnection} (found : r.get? id = some m) :
    ∃ m', (handshake r link p).1.get? id = some m' ∧
      Advances link (metaOf (handshake r link p).2) p id m m' := by
  have shaken := shaken_handshake r link p
  generalize handshake r link p = result at shaken
  cases shaken with
  | stays link' same => exact ⟨m, found, .refl⟩
  | joins id' m' clientDirection option plain known =>
      by_cases same : id' = id
      · subst same
        refine ⟨m.addSubflow p.stream, r.get?_modify_same found _, m.origin_addSubflow _,
          Or.inr ⟨by rw [plain]; rfl, rfl, rfl⟩, fun _ => m.state_addSubflow _, ?_, ?_⟩
        · rw [m.state_addSubflow]
          exact fun pending => pending
        · rw [m.state_addSubflow]
          exact Or.inl
      · exact ⟨m, (r.get?_modify_of_ne same _).trans found, .refl⟩
  | opens l answer answers =>
      have lt : id < r.size := (List.getElem?_eq_some_iff.1 found).1
      refine ⟨m, ?_, .refl⟩
      dsimp only
      rw [MetaRegistry.get?_modify_of_ne _ (Nat.ne_of_gt lt)]
      exact r.get?_openConnection_of_some found _ _
  | confirms id' l echo echoes =>
      by_cases same : id' = id
      · subst same
        refine ⟨m.confirm echo, r.get?_modify_same found _, ?_⟩
        have origin := m.origin_confirm echo
        have subflows := m.subflows_confirm echo
        rcases m.state_confirm_cases echo with kept | ⟨pending, matching, -⟩ | ⟨unjudged, failed⟩
        · exact ⟨origin, Or.inl subflows, fun _ => kept, kept.symm.trans,
            fun ok => Or.inl (kept.symm.trans ok)⟩
        · refine ⟨origin, Or.inl subflows, fun final => ?_, fun _ => pending,
            fun _ => Or.inr ⟨pending, l, echo, echoes, matching⟩⟩
          rw [pending] at final
          cases final
        · exact ⟨origin, Or.inl subflows,
            fun final => absurd (unjudged.symm.trans final) Bool.false_ne_true,
            fun pending => (nomatch failed.symm.trans pending), fun ok => (nomatch failed.symm.trans ok)⟩
      · exact ⟨m, (r.get?_modify_of_ne same _).trans found, .refl⟩

/-! ### All connections -/

theorem metaOf_hearing : metaOf (hearing r link p) = metaOf (handshake r link p).2 := by
  unfold hearing
  cases (handshake r link p).2 with
  | none =>
      rw [Option.none_or]
      split <;> rfl
  | some l => rfl

theorem part_heard : (heard r link p).link.map (·.part) = link.map (·.part) := by
  rcases heard_cases r link p with ⟨-, same, -⟩ | ⟨s, t, id, linked, -, -, hears, -, same⟩
  · rw [same]
  · rw [same, linked]
    exact congrArg some hears.part

/-- Options do not attach a subflow. -/
theorem metaOf_correlate :
    metaOf (correlate r link p).link = metaOf (handshake r link p).2 := by
  rw [correlate_eq, metaOf_congr (part_heard ..), metaOf_hearing]

/-- **What options do to a connection**: a failure fails the connection of the subflow, and no other. -/
theorem get?_heard {id : Nat} {m : MetaConnection} (found : r.get? id = some m) :
    ∃ m', (heard r link p).registry.get? id = some m' ∧ m'.origin = m.origin ∧
      m'.subflows = m.subflows ∧
      m'.state = if p.segment.signalsFailure && metaOf link == some id then m.state.failed
        else m.state := by
  rcases heard_cases r link p with
    ⟨registry, -, missing⟩ | ⟨s, t, id', linked, attached, known, hears, registry, -⟩
  · rw [registry]
    refine ⟨m, found, rfl, rfl, (if_neg fun heardBy => ?_).symm⟩
    rw [missing id (beq_iff_eq.1 (Bool.and_eq_true_iff.1 heardBy).2)] at found
    cases found
  · rw [registry]
    by_cases same : id' = id
    · subst same
      obtain rfl := Option.some.inj (known.symm.trans found)
      have heardBy : metaOf link = some id' := by rw [linked]; exact attached
      refine ⟨t.connection, r.get?_modify_same found _, hears.origin, hears.subflows, ?_⟩
      rw [hears.state, heardBy, beq_self_eq_true, Bool.and_true]
    · refine ⟨m, (r.get?_modify_of_ne same _).trans found, rfl, rfl,
        (if_neg fun heardBy => ?_).symm⟩
      rw [linked] at heardBy
      have other : s.link.metaId = some id := beq_iff_eq.1 (Bool.and_eq_true_iff.1 heardBy).2
      exact same (Option.some.inj (attached.symm.trans other))

/-- **What a segment does to a connection that is open.** -/
theorem get?_correlate {id : Nat} {m : MetaConnection} (found : r.get? id = some m) :
    ∃ m', (correlate r link p).registry.get? id = some m' ∧
      Advances link (metaOf (correlate r link p).link) p id m m' := by
  obtain ⟨m₁, shaken, advances⟩ := get?_handshake r link p found
  obtain ⟨m₂, heard, origin, subflows, state⟩ :=
    get?_heard (handshake r link p).1 (hearing r link p) p shaken
  rw [metaOf_correlate]
  exact ⟨m₂, heard, advances.hears origin subflows state⟩

theorem size_heard : (heard r link p).registry.size = r.size := by
  rcases heard_cases r link p with ⟨same, -, -⟩ | ⟨s, t, id, -, -, -, -, same, -⟩
  · rw [same]
  · rw [same, MetaRegistry.size_modify]

/-- A connection after a segment was there after its handshake. -/
theorem exists_get?_handshake {id : Nat} {m : MetaConnection}
    (found : (correlate r link p).registry.get? id = some m) :
    ∃ m₁, (handshake r link p).1.get? id = some m₁ := by
  refine ⟨_, List.getElem?_eq_getElem ?_⟩
  show id < (handshake r link p).1.size
  rw [← size_heard _ (hearing r link p) p]
  exact (List.getElem?_eq_some_iff.1 found).1

/-- **A failure on a subflow leaves its connection judged.** -/
theorem isTerminal_of_failure {id : Nat} {m : MetaConnection}
    (found : (correlate r link p).registry.get? id = some m)
    (failing : p.segment.signalsFailure = true)
    (attached : metaOf (correlate r link p).link = some id) : m.state.isTerminal = true := by
  obtain ⟨m₁, shaken⟩ := exists_get?_handshake r link p found
  obtain ⟨m₂, heard, -, -, state⟩ :=
    get?_heard (handshake r link p).1 (hearing r link p) p shaken
  obtain rfl := Option.some.inj (heard.symm.trans found)
  rw [metaOf_correlate, ← metaOf_hearing] at attached
  rw [state, failing, attached, beq_self_eq_true]
  exact HandshakeState.isTerminal_failed _

/-! ### Connections that open -/

/-- **Only an answer opens a connection**, the next one, with the subflow it came on. -/
theorem eq_opened_of_handshake {id : Nat} {m : MetaConnection} (missing : r.get? id = none)
    (opened : (handshake r link p).1.get? id = some m) :
    metaOf (handshake r link p).2 = some id ∧ ∃ l answer, Answers link p l answer ∧
      m = ((MetaConnection.ofAnswer id l.synKey answer).selectAlgorithm answer).addSubflow
        p.stream := by
  have shaken := shaken_handshake r link p
  generalize handshake r link p = result at shaken opened
  cases shaken with
  | stays link' same => exact nomatch missing.symm.trans opened
  | joins id' m' clientDirection option plain known =>
      exact nomatch (r.get?_modify_of_none missing id' _).symm.trans opened
  | opens l answer answers =>
      have lt : id < r.size + 1 := by
        rw [← r.size_openConnection l.synKey answer, ← MetaRegistry.size_modify _ r.size
          (·.addSubflow p.stream)]
        exact (List.getElem?_eq_some_iff.1 opened).1
      obtain rfl := Nat.le_antisymm (Nat.le_of_lt_succ lt) (r.get?_eq_none_iff.1 missing)
      have known := MetaRegistry.get?_modify_same _
        (r.get?_openConnection l.synKey answer) (·.addSubflow p.stream)
      obtain rfl := Option.some.inj (known.symm.trans opened)
      exact ⟨rfl, l, answer, answers, rfl⟩
  | confirms id' l echo echoes =>
      exact nomatch (r.get?_modify_of_none missing id' _).symm.trans opened

theorem opens_of_correlate {id : Nat} {m : MetaConnection} (missing : r.get? id = none)
    (opened : (correlate r link p).registry.get? id = some m) :
    metaOf (correlate r link p).link = some id ∧ ∃ l answer, Opens link p id m l answer := by
  obtain ⟨m₁, shaken⟩ := exists_get?_handshake r link p opened
  obtain ⟨attached, l, answer, answers, rfl⟩ := eq_opened_of_handshake r link p missing shaken
  obtain ⟨m₂, heard, origin, subflows, state⟩ :=
    get?_heard (handshake r link p).1 (hearing r link p) p shaken
  obtain rfl := Option.some.inj (heard.symm.trans opened)
  refine ⟨by rw [metaOf_correlate, attached], l, answer, answers,
    origin.trans (MetaConnection.origin_addSubflow _ _), subflows, ?_⟩
  rw [state, metaOf_hearing, attached, beq_self_eq_true, Bool.and_true,
    MetaConnection.state_addSubflow]
  show (if _ then HandshakeState.failed (if answer.hmac.isSome then .pending else .noAlgorithm)
    else if answer.hmac.isSome then .pending else .noAlgorithm) = _
  cases answer.hmac <;> rfl

/-! ### Links -/

/-- A link that is attached stands. -/
theorem handshake_of_attached (attached : (metaOf link).isSome = true) :
    (handshake r link p).2 = link := by
  have shaken := shaken_handshake r link p
  generalize handshake r link p = result at shaken
  cases shaken with
  | stays link' same =>
      rcases same with same | ⟨unattached, -⟩
      · exact same
      · rw [unattached] at attached
        cases attached
  | joins id m clientDirection option plain known =>
      rw [plain] at attached
      cases attached
  | opens l answer answers =>
      rw [answers.offered, show metaOf (some l) = l.metaId from rfl, answers.unattached] at attached
      cases attached
  | confirms id l echo echoes => rfl

/-- **A subflow that is attached keeps its part.** -/
theorem part_correlate (attached : (metaOf link).isSome = true) :
    (correlate r link p).link.map (·.part) = link.map (·.part) := by
  have hears : hearing r link p = link := by
    unfold hearing
    rw [handshake_of_attached r link p attached]
    cases link with
    | none => cases attached
    | some l => rfl
  rw [correlate_eq, part_heard, hears]

theorem attached_of_handshake {l : SubflowLink} {id : Nat} (unattached : metaOf link = none)
    (linked : (handshake r link p).2 = some l) (attached : l.metaId = some id) :
    ∃ m, (handshake r link p).1.get? id = some m ∧ p.stream ∈ m.subflows ∧
      (l.joined = false → m.subflows = [p.stream]) := by
  have shaken := shaken_handshake r link p
  generalize handshake r link p = result at shaken linked
  cases shaken with
  | stays link' same =>
      have none : metaOf link' = none := by
        rcases same with rfl | ⟨-, none⟩
        · exact unattached
        · exact none
      rw [show link' = some l from linked] at none
      exact nomatch none.symm.trans attached
  | joins id' m clientDirection option plain known =>
      obtain rfl := Option.some.inj linked
      obtain rfl := Option.some.inj attached
      exact ⟨_, r.get?_modify_same known _, m.mem_subflows_addSubflow p.stream, nofun⟩
  | opens l' answer answers =>
      obtain rfl := Option.some.inj linked
      obtain rfl := Option.some.inj attached
      exact ⟨_, MetaRegistry.get?_modify_same _ (r.get?_openConnection l'.synKey answer) _,
        List.mem_singleton_self _, fun _ => rfl⟩
  | confirms id' l' echo echoes =>
      rw [show link = some l from linked] at unattached
      exact nomatch unattached.symm.trans attached

/-- **A subflow that is attached is one of the connection**, and the only one if it opened it. -/
theorem attached_of_correlate {l : SubflowLink} {id : Nat} (unattached : metaOf link = none)
    (linked : (correlate r link p).link = some l) (attached : l.metaId = some id) :
    ∃ m, (correlate r link p).registry.get? id = some m ∧ p.stream ∈ m.subflows ∧
      (l.joined = false → m.subflows = [p.stream]) := by
  have part : (hearing r link p).map (·.part) = some l.part := by
    rw [← part_heard (handshake r link p).1, ← correlate_eq, linked]
    rfl
  obtain ⟨l₁, hears, same⟩ := Option.map_eq_some_iff.1 part
  have attached₁ : l₁.metaId = some id := (congrArg SubflowLink.metaId same).trans attached
  have shaken : (handshake r link p).2 = some l₁ := by
    rcases Option.or_eq_some_iff.1 hears with shaken | ⟨-, orphan⟩
    · exact shaken
    · split at orphan
      · obtain rfl := Option.some.inj orphan
        cases attached₁
      · cases orphan
  obtain ⟨m, known, mem, first⟩ := attached_of_handshake r link p unattached shaken attached₁
  obtain ⟨m', heard, -, subflows, -⟩ :=
    get?_heard (handshake r link p).1 (hearing r link p) p known
  have joined : l₁.joined = l.joined := (congrArg SubflowLink.joined same :)
  rw [joined] at first
  exact ⟨m', heard, by rwa [subflows], by rwa [subflows]⟩

end Correlation

end TcpCapture
