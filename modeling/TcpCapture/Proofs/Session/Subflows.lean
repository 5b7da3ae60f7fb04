import TcpCapture.Proofs.Multipath.Attachment
import TcpCapture.Proofs.Multipath.Tokens
import TcpCapture.Proofs.Session.Closed
import TcpCapture.Proofs.Session.Summaries

/-!
# Subflows and their multipath connections

A connection names the multipath connection it belongs to, and a multipath connection lists its
subflows.  Both are kept apart and updated by different segments; they never disagree.

## Main definitions

* `Connection.metaId?` — the multipath connection that a connection names
* `Session.Woven` — connections and multipath connections fit together
* `Session.JoinsBy` — a call in which a subflow joins by a token
* `Session.multipath_references` — what holds of the references after every run

**Lists outlive connections.**  A subflow that ended stays on the list, and so does the one that gave
way to a new connection of the same ports.  The new one has another stream number.
-/

namespace TcpCapture

open Correlation

namespace Connection

/-- The multipath connection the connection names. -/
def metaId? (c : Connection) : Option Nat := metaOf c.link

section

variable (c : Connection) (registry : MetaRegistry) (config : Config) (probe : Option LengthProbe)
  (d : Direction) (s : Segment)

/-- After its segment is correlated a link keeps its part. -/
theorem part_handle :
    (c.handle registry config probe d s).connection.link.map (·.part) =
      (c.correlated registry config d s).link.map (·.part) := by
  have ended (c : Connection) : (c.endWith s).1.link.map (·.part) = c.link.map (·.part) := by
    unfold endWith
    split
    · rfl
    · cases c with
      | mk _ _ _ _ _ _ _ _ link => cases link <;> rfl
  rw [handle_link, ended, link_finished, link_linked]

theorem registry_handle :
    (c.handle registry config probe d s).registry = (c.correlated registry config d s).registry := by
  rw [handle_eq]

theorem correlated_of_multipath (on : config.multipath = true) :
    c.correlated registry config d s = correlate registry c.link (c.passage config d s) := by
  have judged : (c.judged config d s).1.link = c.link := c.link_noteOpening d s
  unfold correlated
  rw [if_pos on, judged]

theorem correlated_of_off (off : config.multipath = false) :
    c.correlated registry config d s = { registry, link := c.link } := by
  have judged : (c.judged config d s).1.link = c.link := c.link_noteOpening d s
  unfold correlated
  rw [if_neg (Bool.eq_false_iff.1 off), judged]

/-- **What a segment does to the multipath connections and to its own link.** -/
theorem updates_handle :
    Updates c.link (c.passage config d s) registry (c.handle registry config probe d s).registry
      (c.handle registry config probe d s).connection.link := by
  rw [registry_handle]
  refine Updates.congr ?_ (c.part_handle registry config probe d s)
  cases enabled : config.multipath with
  | true =>
      rw [c.correlated_of_multipath registry config d s enabled]
      exact updates_correlate registry c.link _
  | false =>
      rw [c.correlated_of_off registry config d s enabled]
      exact .refl

theorem indexesTokens_handle (h : registry.IndexesTokens) :
    (c.handle registry config probe d s).registry.IndexesTokens := by
  rw [registry_handle]
  cases enabled : config.multipath with
  | true =>
      rw [c.correlated_of_multipath registry config d s enabled]
      exact indexesTokens_correlate c.link _ h
  | false =>
      rw [c.correlated_of_off registry config d s enabled]
      exact h

theorem stream_passage : (c.passage config d s).stream = c.stream :=
  (c.continues_judged config d s).stream

end

end Connection

namespace Session

/-! ### The invariant -/

variable {s : Session} {call : Call} {r : Resolved} {c : Connection}

/-- Connections and multipath connections fit together. -/
structure Woven (s : Session) : Prop where
  tokens : s.registry.IndexesTokens
  /-- A connection names the multipath connection that lists its stream. -/
  linked : ∀ c ∈ s.table.live, ∀ id, c.metaId? = some id ↔ s.registry.HasSubflow id c.stream
  /-- One that did not join is the first on the list. -/
  first : ∀ c ∈ s.table.live, ∀ l id m, c.link = some l → l.joined = false → l.metaId = some id →
    s.registry.get? id = some m → m.subflows.head? = some c.stream
  numbered : ∀ id stream, s.registry.HasSubflow id stream → stream < s.table.nextStream
  unique : ∀ id id' stream, s.registry.HasSubflow id stream → s.registry.HasSubflow id' stream →
    id = id'
  nodup : ∀ id m, s.registry.get? id = some m → m.subflows.Nodup
  off : s.config.multipath = false → s.registry = {}

namespace Woven

theorem new (config : Config) : (Session.new config).Woven where
  tokens _ := rfl
  linked _ mem := nomatch mem
  first _ mem := nomatch mem
  numbered := by
    rintro id stream ⟨m, found, -⟩
    cases found
  unique := by
    rintro id id' stream ⟨m, found, -⟩
    cases found
  nodup _ _ found := nomatch found
  off _ := rfl

/-- Connections may leave, and one may open. -/
theorem congr (h : s.Woven) {t : Session} (registry : t.registry = s.registry)
    (config : t.config = s.config) (next : s.table.nextStream ≤ t.table.nextStream)
    (live : ∀ c ∈ t.table.live, c ∈ s.table.live ∨
      ∃ conversation now, c = .start s.table.nextStream conversation now) : t.Woven where
  tokens := by
    rw [registry]
    exact h.tokens
  linked c mem id := by
    rw [registry]
    rcases live c mem with mem | ⟨conversation, now, rfl⟩
    · exact h.linked c mem id
    · exact iff_of_false nofun fun listed => Nat.lt_irrefl _ (h.numbered _ _ listed)
  first c mem l id m linked initial attached found := by
    rw [registry] at found
    rcases live c mem with mem | ⟨conversation, now, rfl⟩
    · exact h.first c mem l id m linked initial attached found
    · cases linked
  numbered id stream listed := by
    rw [registry] at listed
    exact Nat.lt_of_lt_of_le (h.numbered id stream listed) next
  unique := by
    rw [registry]
    exact h.unique
  nodup := by
    rw [registry]
    exact h.nodup
  off off := by
    rw [registry]
    exact h.off (config ▸ off)

theorem swept (h : s.Woven) (consistent : s.Consistent) (call : Call) : (s.swept call).Woven :=
  h.congr (registry_swept s call) (sweepIdle_config _ _) (Nat.le_of_eq (nextStream_swept s call).symm)
    fun _ mem => Or.inl (consistent.live_swept_subset call mem)

theorem resolved (h : s.Woven) (consistent : s.Consistent) (handles : s.Handles call r c) :
    r.session.Woven :=
  h.congr handles.registry handles.config (handles.le_nextStream consistent) fun _ mem =>
    (handles.live_cases consistent mem).imp_right fun same => ⟨_, _, same⟩

section

variable (consistent : s.Consistent) (handles : s.Handles call r c)

include consistent handles

/-- The connection that handled a call names the multipath connection that lists it. -/
theorem linked_handled (h : s.Woven) (id : Nat) :
    (handled call r c).connection.metaId? = some id ↔
      (handled call r c).registry.HasSubflow id c.stream := by
  have updates := c.updates_handle r.session.registry r.session.config call.probe call.direction
    call.segment
  have before := (h.resolved consistent handles).linked c handles.mem
  have after := updates.hasSubflow_iff id c.stream
  rw [Connection.stream_passage, ← before, eq_self_iff_true, true_and] at after
  refine Iff.trans ⟨fun attached => ?_, ?_⟩ after.symm
  · cases unattached : metaOf c.link with
    | none => exact Or.inr ⟨rfl, attached⟩
    | some id' =>
        obtain rfl := Option.some.inj ((updates.metaOf_eq unattached).symm.trans attached)
        exact Or.inl unattached
  · rintro (attached | ⟨-, attached⟩)
    · exact updates.metaOf_eq attached
    · exact attached

/-- The connection that handled a call is the first on the list, unless it joined. -/
theorem first_handled (h : s.Woven) {l : SubflowLink} {id : Nat} {m' : MetaConnection}
    (linked : (handled call r c).connection.link = some l) (initial : l.joined = false)
    (attached : l.metaId = some id) (found' : (handled call r c).registry.get? id = some m') :
    m'.subflows.head? = some c.stream := by
  have woven := h.resolved consistent handles
  have updates := c.updates_handle r.session.registry r.session.config call.probe call.direction
    call.segment
  cases before : metaOf c.link with
  | none =>
      obtain ⟨m, known, -, only⟩ := updates.attached before linked attached
      obtain rfl := Option.some.inj (known.symm.trans found')
      rw [only initial, Connection.stream_passage]
      rfl
  | some id' =>
      have part := updates.part (by rw [before]; rfl)
      rw [show (c.handle r.session.registry r.session.config call.probe call.direction
        call.segment).connection.link = some l from linked] at part
      obtain ⟨l', linked', same⟩ := Option.map_eq_some_iff.1 part.symm
      have attached' : l'.metaId = some id := (congrArg SubflowLink.metaId same :).trans attached
      have initial' : l'.joined = false := (congrArg SubflowLink.joined same :).trans initial
      have named : c.metaId? = some id := Option.bind_eq_some_iff.2 ⟨l', linked', attached'⟩
      obtain ⟨m, found, -⟩ := (woven.linked c handles.mem id).1 named
      exact updates.head?_subflows found
        (woven.first c handles.mem l' id m linked' initial' attached' found) found'

/-- **A call keeps connections and multipath connections together.** -/
theorem handle (h : s.Woven) : (s.take call).session.Woven := by
  have woven := h.resolved consistent handles
  have updates := c.updates_handle r.session.registry r.session.config call.probe call.direction
    call.segment
  have next : c.stream < r.session.table.nextStream := by
    obtain ⟨displaced, indexed⟩ := handles.consistent consistent
    exact indexed.stream_lt c handles.mem
  have same := handles.sameIdentity.stream
  have listed (id stream : Nat) : (handled call r c).registry.HasSubflow id stream ↔
      r.session.registry.HasSubflow id stream ∨
        stream = c.stream ∧ metaOf c.link = none ∧
          metaOf (handled call r c).connection.link = some id := by
    have iff := updates.hasSubflow_iff id stream
    rwa [Connection.stream_passage] at iff
  have config : (s.take call).session.config = r.session.config := by
    rw [handles.take_eq consistent]
  have registry := handles.registry_take consistent
  refine ⟨?tokens, ?linked, ?first, ?numbered, ?unique, ?nodup, ?off⟩
  case tokens =>
    rw [registry]
    exact c.indexesTokens_handle _ _ _ _ _ woven.tokens
  case linked =>
    intro e mem id
    rw [registry]
    rcases (handles.mem_live_take_iff consistent).1 mem with rfl | ⟨mem, other⟩
    · show (handled call r c).connection.metaId? = some id ↔
        (handled call r c).registry.HasSubflow id (handled call r c).connection.stream
      rw [same]
      exact linked_handled consistent handles h id
    · rw [listed, woven.linked e mem, or_iff_left fun own => other own.1]
  case first =>
    intro e mem l id m' linked initial attached found'
    rw [registry] at found'
    rcases (handles.mem_live_take_iff consistent).1 mem with rfl | ⟨mem, other⟩
    · show m'.subflows.head? = some (handled call r c).connection.stream
      rw [same]
      exact first_handled consistent handles h linked initial attached found'
    · have named : e.metaId? = some id := Option.bind_eq_some_iff.2 ⟨l, linked, attached⟩
      obtain ⟨m, found, -⟩ := (woven.linked e mem id).1 named
      exact updates.head?_subflows found (woven.first e mem l id m linked initial attached found) found'
  case numbered =>
    intro id stream mem
    rw [registry, listed] at mem
    rw [handles.nextStream_take consistent]
    rcases mem with mem | ⟨rfl, -⟩
    · exact woven.numbered id stream mem
    · exact next
  case unique =>
    intro id id' stream mem mem'
    rw [registry, listed] at mem mem'
    rcases mem with mem | ⟨rfl, unattached, attached⟩
    · rcases mem' with mem' | ⟨rfl, unattached, -⟩
      · exact woven.unique id id' stream mem mem'
      · exact nomatch unattached.symm.trans ((woven.linked c handles.mem id).2 mem)
    · rcases mem' with mem' | ⟨-, -, attached'⟩
      · exact nomatch unattached.symm.trans ((woven.linked c handles.mem id').2 mem')
      · exact Option.some.inj (attached.symm.trans attached')
  case nodup =>
    intro id m found
    rw [registry] at found
    exact updates.nodup woven.nodup id m found
  case off =>
    intro off
    rw [config] at off
    rw [registry, handled, Connection.registry_handle, Connection.correlated_of_off _ _ _ _ _ off]
    exact woven.off off

end

theorem take (h : s.Woven) (consistent : s.Consistent) (call : Call) :
    (s.take call).session.Woven := by
  rcases s.take_cases call with ⟨e, refused⟩ | ⟨r, c, handles⟩
  · rw [take_of_refused refused]
    exact h.swept consistent call
  · exact handle consistent handles h

/-- **Connections and multipath connections fit together after every run.** -/
theorem after (h : s.Woven) (consistent : s.Consistent) (calls : List Call) :
    (s.after calls).Woven := by
  induction calls using List.reverseRecOn with
  | nil => exact h
  | append_singleton calls call ih =>
      rw [after_concat]
      exact ih.take (consistent.after calls) call

end Woven

/-! ### Connections keep their part -/

/-- A connection that is live after a call opened in it, or was live before and keeps its part. -/
theorem part_take (h : s.Consistent) {e : Connection} (mem : e ∈ (s.take call).session.table.live) :
    e.stream = s.table.nextStream ∨
      ∃ c ∈ s.table.live, e.stream = c.stream ∧
        (c.metaId?.isSome = true → e.link.map (·.part) = c.link.map (·.part)) := by
  rcases s.take_cases call with ⟨error, refused⟩ | ⟨r, c, handles⟩
  · rw [take_of_refused refused] at mem
    exact Or.inr ⟨e, h.live_swept_subset call mem, rfl, fun _ => rfl⟩
  · rcases (handles.mem_live_take_iff h).1 mem with rfl | ⟨mem, -⟩
    · show (handled call r c).connection.stream = _ ∨ ∃ c' ∈ s.table.live,
        (handled call r c).connection.stream = _ ∧ (_ → (handled call r c).connection.link.map _ = _)
      rw [handles.sameIdentity.stream]
      rcases handles.live_cases h handles.mem with mem | rfl
      · exact Or.inr ⟨c, mem, rfl, (c.updates_handle ..).part⟩
      · exact Or.inl rfl
    · rcases handles.live_cases h mem with mem | rfl
      · exact Or.inr ⟨e, mem, rfl, fun _ => rfl⟩
      · exact Or.inl rfl

/-- **An attached connection keeps its part as long as it lives.** -/
theorem part_after (h : s.Consistent) (calls : List Call) {c e : Connection}
    (mem : c ∈ s.table.live) (attached : c.metaId?.isSome = true)
    (mem' : e ∈ (s.after calls).table.live) (same : e.stream = c.stream) :
    e.link.map (·.part) = c.link.map (·.part) := by
  induction calls using List.reverseRecOn generalizing e with
  | nil =>
      obtain ⟨displaced, indexed⟩ := h
      have left := indexed.get?_eq_some_iff.2 ⟨mem', same⟩
      have right := indexed.get?_eq_some_iff.2 ⟨mem, rfl⟩
      obtain rfl := Option.some.inj (left.symm.trans right)
      rfl
  | append_singleton calls call ih =>
      rw [after_concat] at mem'
      rcases part_take (h.after calls) mem' with opened | ⟨c', mem'', stream, part⟩
      · have old : c.stream < s.table.nextStream := by
          obtain ⟨displaced, indexed⟩ := h
          exact indexed.stream_lt c mem
        rw [← same, opened] at old
        exact absurd old (Nat.not_lt_of_le (le_nextStream_after h calls))
      · have kept := ih mem'' (stream.symm.trans same)
        rw [part (by rw [Connection.metaId?, metaOf_congr kept]; exact attached), kept]

/-! ### Subflows that join -/

/-- The call is handled by the plain connection `c`, which joins by `token` with it. -/
structure JoinsBy (s : Session) (call : Call) (c : Connection) (token : Token) : Prop where
  handles : ∃ r, s.Handles call r c
  plain : c.link = none
  syn : call.segment.flags.syn = true
  ack : call.segment.flags.ack = false
  capable : (c.passage s.config call.direction call.segment).capable? = none
  join : ∃ option, (c.passage s.config call.direction call.segment).join? = some option ∧
    option.token = some token

/-- **A subflow that joins sends for the other side than the one that has the token.** -/
theorem Woven.side_of_joins (h : s.Woven) (consistent : s.Consistent) {token : Token} {id : Nat}
    (joins : s.JoinsBy call c token) (known : s.registry.lookupToken token = some id) :
    ∃ e ∈ (s.take call).session.table.live, e.stream = c.stream ∧ ∃ l m owner,
      e.link = some l ∧ l.metaId = some id ∧ s.registry.get? id = some m ∧
      (m.flow owner).token = some token ∧ l.side call.direction = owner.opposite := by
  obtain ⟨r, handles⟩ := joins.handles
  obtain ⟨option, join, named⟩ := joins.join
  have on : s.config.multipath = true := by
    cases enabled : s.config.multipath with
    | true => rfl
    | false =>
        rw [h.off enabled] at known
        cases known
  obtain ⟨m, owner, l, found, own, linked, attached, side⟩ := side_of_join
    (c.passage s.config call.direction call.segment) h.tokens joins.syn joins.ack joins.capable join
    named known
  have part := c.part_handle r.session.registry r.session.config call.probe call.direction
    call.segment
  rw [handles.config, handles.registry, Connection.correlated_of_multipath _ _ _ _ _ on, joins.plain,
    linked] at part
  obtain ⟨l', linked', same⟩ := Option.map_eq_some_iff.1 part
  have handled : (handled call r c).connection.link = some l' := by
    rw [Session.handled, handles.config, handles.registry]
    exact linked'
  refine ⟨_, handles.mem_live_take consistent, handles.sameIdentity.stream, l', m, owner, handled,
    ?_, found, own, ?_⟩
  · exact (congrArg SubflowLink.metaId same :).trans attached
  · rw [← side]
    exact (congrArg (fun l : SubflowLink => l.side call.direction) same :)

/-! ### Whole runs -/

/-- **Multipath references fit together after every run.**  A token is looked up as the first connection
that has it.  A live connection that names a multipath connection names one there is, which lists it.
No stream is listed twice.  What a connection names, and the sides it sends for, stay as long as it lives.
A subflow that joins sends for the other side than the one whose token it quotes. -/
theorem multipath_references (config : Config) (calls : List Call) :
    let s := (new config).after calls
    (∀ token id, s.registry.lookupToken token = some id ↔
      s.registry.HasToken id token ∧ ∀ earlier < id, ¬ s.registry.HasToken earlier token) ∧
    (∀ c ∈ s.table.live, ∀ id, c.metaId? = some id →
      id < s.registry.size ∧ s.registry.HasSubflow id c.stream) ∧
    (∀ id m, s.registry.get? id = some m → m.subflows.Nodup) ∧
    (∀ id id' stream, s.registry.HasSubflow id stream → s.registry.HasSubflow id' stream → id = id') ∧
    (∀ later, ∀ c ∈ s.table.live, ∀ e ∈ (s.after later).table.live, e.stream = c.stream →
      c.metaId?.isSome = true →
      e.metaId? = c.metaId? ∧ ∀ d, e.link.map (·.side d) = c.link.map (·.side d)) ∧
    ∀ call c token id, s.JoinsBy call c token → s.registry.lookupToken token = some id →
      ∃ e ∈ (s.take call).session.table.live, e.stream = c.stream ∧ ∃ l m owner,
        e.link = some l ∧ l.metaId = some id ∧ s.registry.get? id = some m ∧
        (m.flow owner).token = some token ∧ l.side call.direction = owner.opposite := by
  intro s
  have woven : s.Woven := (Woven.new config).after (consistent_new config) calls
  have consistent : s.Consistent := (consistent_new config).after calls
  refine ⟨woven.tokens.lookupToken_eq_some_iff, fun c mem id named => ?_, woven.nodup, woven.unique,
    fun later c mem e mem' same attached => ?_, fun call c token id joins known =>
      woven.side_of_joins consistent joins known⟩
  · obtain ⟨m, found, listed⟩ := (woven.linked c mem id).1 named
    exact ⟨(List.getElem?_eq_some_iff.1 found).1, m, found, listed⟩
  · have part := part_after consistent later mem attached mem' same
    refine ⟨metaOf_congr part, fun d => ?_⟩
    have side (link : Option SubflowLink) :
        link.map (·.side d) = (link.map (·.part)).map (·.side d) := by
      cases link <;> rfl
    rw [side, part, ← side]

/-- A connection opens with keys 1 and 2, and a second subflow quotes the token of its server: it sends
for the client. -/
theorem multipath_references_of_join :
    let client : Endpoint := ⟨.v4 0x0a000001, 40000⟩
    let other : Endpoint := ⟨.v4 0x0a000001, 40001⟩
    let server : Endpoint := ⟨.v4 0x0a000002, 443⟩
    let calls : List Call := [
      { segment := { source := client, destination := server, flags.syn := true
                     multipath := [.capable { flags := 1, senderKey := some 1 }] } },
      { segment := { source := server, destination := client, ack := 1, flags.syn := true
                     flags.ack := true
                     multipath := [.capable { flags := 1, senderKey := some 2 }] } }]
    let call : Call :=
      { segment := { source := other, destination := server, flags.syn := true
                     multipath := [.join { token := some (keyToken 2) }] } }
    let c : Connection := .start 1 call.conversation 0
    (((new {}).after calls).JoinsBy call c (keyToken 2) ∧
        ((new {}).after calls).registry.lookupToken (keyToken 2) = some 0) ∧
      ∃ e ∈ (((new {}).after calls).take call).session.table.live, e.stream = c.stream ∧
        ∃ l m owner, e.link = some l ∧ l.metaId = some 0 ∧
          ((new {}).after calls).registry.get? 0 = some m ∧
          (m.flow owner).token = some (keyToken 2) ∧ l.side call.direction = owner.opposite := by
  intro client other server calls call c
  have known : ((new {}).after calls).registry.lookupToken (keyToken 2) = some 0 := by
    decide +kernel
  have joins : ((new {}).after calls).JoinsBy call c (keyToken 2) := by
    refine ⟨⟨((new {}).after calls).openStream call.conversation 0 false, ?_, ?_, ?_, rfl⟩, rfl, rfl,
      rfl, rfl, _, rfl, rfl⟩
    · decide +kernel
    · decide +kernel
    · decide +kernel
  obtain ⟨-, -, -, -, -, joined⟩ := multipath_references {} calls
  exact ⟨⟨joins, known⟩, joined call c (keyToken 2) 0 joins known⟩

end Session

end TcpCapture
