import TcpCapture.Proofs.Session.Remembering

/-!
# Opening SYNs

A SYN that acknowledges nothing is never refused.  It opens a connection, also in the place of one that has
ended, or it is one more segment of a connection that goes on.

## Main definitions

* `Session.opening_cases` — the connection an opening SYN lands on
* `Session.StartsAtZero` — a call is reported at position zero of a connection that counts from it
* `Session.MeetsItsOrigin` — what was seen of a direction agrees with its SYN
* `Session.startsAtZero_iff` — a SYN starts at zero exactly if it meets its origin

**Another first number.**  With payload exchanged, a SYN with another number than before starts over.
Without, it stays on the connection, whose numbering is anchored already: the SYN is reported somewhere else
than at zero, and the data behind it does not start at 1.
-/

namespace TcpCapture

/-- A segment is reported at its distance from where its direction counts from. -/
theorem Connection.seq_handle (c : Connection) (registry : MetaRegistry) (config : Config)
    (probe : Option LengthProbe) (d : Direction) (s : Segment) :
    (c.handle registry config probe d s).report.seq =
      s.seq - ((c.flow d).baseSeq.getD s.origin) := by
  have anchored := c.baseSeq_judged_own config d s
  rw [handle_eq]
  show s.seq - ((c.judged config d s).1.flow d).baseSeq.getD 0 = _
  rw [anchored]
  cases (c.flow d).baseSeq <;> rfl

namespace Session

/-- **An opening SYN lands on a live connection that it does not replace, or on one that opens for it.** -/
theorem opening_cases {s : Session} (h : s.Consistent) {call : Call}
    (opening : call.segment.isOpening = true) :
    (∃ r c, s.Handles call r c ∧ c ∈ (s.swept call).table.live ∧
        isPortReuse c call.direction call.segment = false) ∨
      (∃ r, s.Handles call r
          (.start s.table.nextStream call.conversation call.segment.timestamp)) ∧
        ∀ c ∈ (s.swept call).table.live, c.conversation = call.conversation →
          isPortReuse c call.direction call.segment = true := by
  have found? {c : Connection} (mem : c ∈ (s.swept call).table.live)
      (own : c.conversation = call.conversation) :
      (s.swept call).table.find? call.conversation = some c := by
    obtain ⟨displaced, indexed⟩ := h.swept call
    exact own ▸ indexed.find?_of_mem mem
  cases opens : (s.swept call).opens call with
  | true =>
      have resolved := resolve_of_opens opens
      refine Or.inr ⟨⟨_, ⟨resolved, ?_, ?_, rfl⟩⟩, fun c mem own => ?_⟩
      · rw [openStream_table, ← nextStream_swept s call]
        exact ConnectionTable.start_mem_openConnection ..
      · rw [openStream_stream, nextStream_swept]
        rfl
      · unfold Session.opens at opens
        rw [found? mem own] at opens
        exact (Bool.and_eq_true_iff.1 opens).2
  | false =>
      cases found : (s.swept call).table.find? call.conversation with
      | none =>
          unfold Session.opens at opens
          rw [found, opening] at opens
          cases opens
      | some c =>
          have mem := List.mem_of_find?_eq_some found
          have own : c.conversation = call.conversation := by simpa using List.find?_some found
          refine Or.inl ⟨_, c, ⟨resolve_of_found opens found, mem, rfl, own⟩, mem, ?_⟩
          unfold Session.opens at opens
          rw [found, opening] at opens
          exact opens

/-- The call is reported at position zero, on a connection that counts its direction from the number of the
segment. -/
def StartsAtZero (s : Session) (call : Call) : Prop :=
  ∃ report, (s.take call).report = .ok report ∧ report.seq = 0 ∧
    ∃ c ∈ (s.take call).session.table.live, c.stream = report.stream ∧
      (c.flow call.direction).baseSeq = some call.segment.seq

/-- A SYN starts at zero if the connection counts from it, or does not count its direction yet. -/
theorem Handles.startsAtZero_iff_origin {s : Session} (h : s.Consistent) {call : Call} {r : Resolved}
    {c : Connection} (handles : s.Handles call r c) (syn : call.segment.flags.syn = true) :
    s.StartsAtZero call ↔
      ∀ origin, (c.flow call.direction).baseSeq = some origin → origin = call.segment.seq := by
  have first : call.segment.origin = call.segment.seq := if_pos syn
  have seq := c.seq_handle r.session.registry r.session.config call.probe call.direction call.segment
  have base := c.baseSeq_handle r.session.registry r.session.config call.probe call.direction
    call.segment call.direction
  rw [if_pos rfl, first] at base
  rw [first] at seq
  constructor
  · rintro ⟨report, ok, zero, -⟩ origin known
    rw [handles.take_eq h] at ok
    obtain rfl := Except.ok.inj ok
    change (handled call r c).report.seq = 0 at zero
    rw [handled, seq, known, Option.getD_some] at zero
    bv_omega
  · intro agrees
    have anchored : (c.flow call.direction).baseSeq.or (some call.segment.seq) =
        some call.segment.seq := by
      cases known : (c.flow call.direction).baseSeq with
      | none => rfl
      | some origin => rw [agrees origin known, Option.some_or]
    refine ⟨_, by rw [handles.take_eq h], ?_, _, handles.mem_live_take h, ?_, ?_⟩
    · show (handled call r c).report.seq = 0
      rw [handled, seq]
      cases known : (c.flow call.direction).baseSeq with
      | none => exact BitVec.sub_self _
      | some origin =>
          rw [agrees origin known]
          exact BitVec.sub_self _
    · exact (c.handle_report_stream ..).symm
    · exact base.trans anchored

/-- Where the SYN finds a connection that is not over and saw no payload, its direction counts from the
number of the SYN, if it was seen at all. -/
def MeetsItsOrigin (config : Config) (calls : List Call) (call : Call) : Prop :=
  ∀ c ∈ (((new config).after calls).swept call).table.live, c.conversation = call.conversation →
    isOver ((new config).callsOf c.stream calls) = false →
      carriesData ((new config).callsOf c.stream calls) = false →
        ∀ origin, originOf? ((new config).callsOf c.stream calls) call.direction = some origin →
          origin = call.segment.seq

/-- **An opening SYN is accepted and starts its direction at zero if and only if it meets its origin.** -/
theorem startsAtZero_iff (config : Config) (calls : List Call) (call : Call) :
    (call.segment.isOpening = true → ((new config).after calls).StartsAtZero call) ↔
      (call.segment.isOpening = true → MeetsItsOrigin config calls call) := by
  refine forall_congr' fun opening => ?_
  have consistent := (consistent_new config).after calls
  have syn : call.segment.flags.syn = true := (Bool.and_eq_true_iff.1 opening).1
  have reuse {c : Connection} (mem : c ∈ (((new config).after calls).swept call).table.live) :=
    (remembers_after config calls c (consistent.live_swept_subset call mem)).isPortReuse_eq
      call.direction call.segment
  rcases opening_cases consistent opening with ⟨r, c, handles, mem, goesOn⟩ | ⟨⟨r, handles⟩, replaced⟩
  · rw [handles.startsAtZero_iff_origin consistent syn]
    have known := (remembers_after config calls c (consistent.live_swept_subset call mem)).baseSeq
      call.direction
    rw [reuse mem, Bool.or_eq_false_iff] at goesOn
    obtain ⟨alive, same⟩ := goesOn
    rw [known]
    constructor
    · intro agrees e mem' own _ _
      obtain ⟨displaced, indexed⟩ := consistent.swept call
      obtain rfl := List.inj_on_of_nodup_map indexed.conversations mem' mem
        (own.trans handles.conversation.symm)
      exact agrees
    · intro meets origin first
      cases data : carriesData ((new config).callsOf c.stream calls) with
      | false => exact meets c mem handles.conversation alive data origin first
      | true =>
          -- payload was exchanged, so another number would have started over
          rw [data, first, Bool.true_and] at same
          exact not_not.1 (mt bne_iff_ne.2 (Bool.eq_false_iff.1 same))
  · rw [handles.startsAtZero_iff_origin consistent syn]
    refine iff_of_true (fun origin known => ?_) fun c mem own alive quiet => ?_
    · rw [(Connection.Remembers.start ..).baseSeq] at known
      cases known
    · have starts := replaced c mem own
      rw [reuse mem, alive, quiet] at starts
      cases starts

/-- A SYN is sent again with another first number: it is reported 400 numbers behind the first one. -/
theorem not_startsAtZero : ¬ ∀ (config : Config) (calls : List Call) (call : Call),
    call.segment.isOpening = true → ((new config).after calls).StartsAtZero call := by
  intro all
  let client : Endpoint := ⟨.v4 0x0a000001, 40000⟩
  let server : Endpoint := ⟨.v4 0x0a000002, 443⟩
  let syn (seq : Seq) : Call :=
    { segment := { source := client, destination := server, seq, flags.syn := true } }
  have behind : (((new {}).after [syn 100]).take (syn 500)).report.toOption.map (·.seq) = some 400 := by
    decide +kernel
  obtain ⟨report, ok, zero, -⟩ := all {} [syn 100] (syn 500) rfl
  rw [ok] at behind
  exact absurd (zero.symm.trans (Option.some.inj behind)) (by decide)

end Session

end TcpCapture
