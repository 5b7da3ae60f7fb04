import Mathlib.Data.List.Dedup
import Mathlib.Data.List.Perm.Subperm
import Mathlib.Data.Nat.Basic
import Mathlib.Order.Monotone.Defs
import TcpCapture.Proofs.Session.Relabelling
import TcpCapture.Proofs.Session.Run

/-!
# Connections keep to themselves

A session that nobody is pushed out of follows each conversation as if it were the only one: its calls
are told the same, but for the numbers of its streams.

## Main definitions

* `Session.toldIn` — what the calls of one conversation are told in a run
* `Session.Quiet` — a call before which nothing expires and for which nothing is evicted
* `Session.Twin` — the second session follows one conversation as the first one does

**Where others could interfere.**  Conversations share the table, its limit, the sweeps for idle
connections and the numbering of streams.  With few conversations and early times the limit and the
sweeps never take effect, and numbers differ only in that streams of others come between.
-/

namespace TcpCapture

namespace Session

/-- What the calls of a conversation are told in a run. -/
def toldIn (s : Session) (conversation : Conversation) (calls : List Call) :
    List (Except CaptureError SegmentReport × List Delivery) :=
  ((calls.zip (s.run calls)).filter fun x => x.1.conversation = conversation).map (·.2.told)

/-- What a call is told when streams have other numbers. -/
def relabelTold (number : Nat → Nat)
    (told : Except CaptureError SegmentReport × List Delivery) :
    Except CaptureError SegmentReport × List Delivery :=
  (told.1.map (·.relabel number), told.2.map (·.relabel number))

/-! ### Calls that take nobody out -/

/-- Before the call nothing expires, and for the call nothing is evicted. -/
structure Quiet (s : Session) (call : Call) : Prop where
  consistent : s.Consistent
  early : call.segment.timestamp ≤ s.config.idleTimeout
  room : (s.table.vacate call.conversation).size < s.table.maxEntries

/-- The call opens a connection. -/
def opens (s : Session) (call : Call) : Bool :=
  match s.table.find? call.conversation with
  | some c => call.segment.isOpening && isPortReuse c call.direction call.segment
  | none => call.segment.isOpening || s.config.acceptMidstream

section

variable {s : Session} {call : Call}

/-- A call that opens a connection is handled by the one that opens. -/
theorem resolve_of_opens (opens : s.opens call = true) :
    s.resolve call.conversation call.direction call.segment =
      .ok (s.openStream call.conversation call.segment.timestamp
        (s.table.find? call.conversation).isSome) := by
  unfold Session.opens at opens
  unfold resolve
  cases found : s.table.find? call.conversation with
  | some c =>
      rw [found] at opens
      exact if_pos opens
  | none =>
      rw [found] at opens
      exact if_pos opens

/-- Another call is handled by the live connection of its conversation. -/
theorem resolve_of_found (opens : s.opens call = false) {c : Connection}
    (found : s.table.find? call.conversation = some c) :
    s.resolve call.conversation call.direction call.segment = .ok ⟨s, c.stream, false, []⟩ := by
  unfold Session.opens at opens
  rw [found] at opens
  unfold resolve
  rw [found]
  exact if_neg (Bool.eq_false_iff.1 opens)

/-- Any other call is refused. -/
theorem resolve_of_missing (opens : s.opens call = false)
    (missing : s.table.find? call.conversation = none) :
    s.resolve call.conversation call.direction call.segment =
      .error (.unknownConnection call.segment.source call.segment.destination) := by
  unfold Session.opens at opens
  rw [missing] at opens
  unfold resolve
  rw [missing]
  exact if_neg (Bool.eq_false_iff.1 opens)

end

/-- The report of a connection that gives way to a new one, unless its end was reported before. -/
def displacedReport (c : Connection) : List TeardownReport :=
  if c.closed then [] else [(c.teardown .reused).2]

theorem displacedReport_relabel (number : Nat → Nat) (c : Connection) :
    displacedReport (c.relabel number) = (displacedReport c).map (·.relabel number) := by
  unfold displacedReport
  show (if c.closed then _ else _) = _
  split <;> rfl

/-- The reports of the connection, if any, that gives way to another one of its conversation. -/
theorem retireAll_displaced (s : Session) {conversation : Conversation}
    {earlier : Option Connection} (own : ∀ c, earlier = some c → c.conversation = conversation) :
    (s.retireAll (fun c => if c.conversation = conversation then .reused else .evicted)
      earlier.toList).2 = earlier.toList.flatMap displacedReport := by
  cases earlier with
  | none => rfl
  | some c =>
      show ((s.retire c (if c.conversation = conversation then .reused else .evicted)).2.toList ++
        []) = displacedReport c ++ []
      rw [if_pos (own c rfl)]
      unfold retire displacedReport
      cases c.closed <;> rfl

namespace Quiet

variable {s : Session} {call : Call}

/-- Sweeping only notes that it was done. -/
theorem sweepIdle (h : s.Quiet call) :
    ∃ lastSweep, s.sweepIdle call.segment.timestamp = ({ s with lastSweep }, []) := by
  unfold Session.sweepIdle
  split
  · exact ⟨s.lastSweep, rfl⟩
  · rw [s.table.expireIdle_of_early h.early]
    exact ⟨call.segment.timestamp, rfl⟩

theorem swept_table (h : s.Quiet call) : (s.swept call).table = s.table := by
  obtain ⟨lastSweep, swept⟩ := h.sweepIdle
  rw [Session.swept, swept]

theorem opens_swept (h : s.Quiet call) : (s.swept call).opens call = s.opens call := by
  unfold Session.opens
  rw [h.swept_table, show (s.swept call).config = s.config from sweepIdle_config _ _]

theorem sweepReports_eq (h : s.Quiet call) : s.sweepReports call = [] := by
  obtain ⟨lastSweep, swept⟩ := h.sweepIdle
  rw [sweepReports, swept]

/-- A call that opens a connection is handled by it; only the earlier one of its conversation gives
way. -/
theorem exists_opened (h : s.Quiet call) (opens : s.opens call = true) :
    ∃ r, s.Handles call r (.start s.table.nextStream call.conversation call.segment.timestamp) ∧
      r.reused = (s.table.find? call.conversation).isSome ∧
      r.retired = (s.table.find? call.conversation).toList.flatMap displacedReport ∧
      r.session.table =
        (s.table.vacate call.conversation).addNew call.conversation call.segment.timestamp := by
  have table := h.swept_table
  have opening := ConnectionTable.openConnection_of_room h.room call.segment.timestamp
  have ok := resolve_of_opens (h.opens_swept.trans opens)
  rw [table] at ok
  refine ⟨_, ⟨ok, ?_, ?_, rfl⟩, rfl, ?_, ?_⟩
  · rw [openStream_table, table]
    exact s.table.start_mem_openConnection call.conversation call.segment.timestamp
  · rw [openStream_stream, table]
    rfl
  · unfold openStream
    rw [table, opening]
    exact retireAll_displaced _ fun c found => by simpa using List.find?_some found
  · rw [openStream_table, table, opening]

/-- Another call of a conversation with a live connection is handled by that. -/
theorem exists_found (h : s.Quiet call) (opens : s.opens call = false) {c : Connection}
    (found : s.table.find? call.conversation = some c) :
    ∃ r, s.Handles call r c ∧ r.reused = false ∧ r.retired = [] ∧ r.session.table = s.table := by
  have table := h.swept_table
  have ok := resolve_of_found (h.opens_swept.trans opens) (table ▸ found)
  have own : c.conversation = call.conversation := by simpa using List.find?_some found
  exact ⟨_, ⟨ok, table ▸ List.mem_of_find?_eq_some found, rfl, own⟩, rfl, rfl, table⟩

/-- Any other call is refused. -/
theorem refused (h : s.Quiet call) (opens : s.opens call = false)
    (missing : s.table.find? call.conversation = none) :
    s.resolved call = .error (.unknownConnection call.segment.source call.segment.destination) :=
  resolve_of_missing (h.opens_swept.trans opens) (h.swept_table ▸ missing)

end Quiet

/-! ### What a call leaves alone -/

namespace Handles

variable {s : Session} {call : Call} {r : Resolved} {c : Connection}

theorem sameNumbering_take (h : s.Consistent) (handles : s.Handles call r c) :
    r.session.table.SameNumbering (s.take call).session.table := by
  have touched := ConnectionTable.SameNumbering.touch
    (r.session.table.put (handled call r c).connection) r.stream call.segment.timestamp
  rw [handles.take_eq h]
  exact ⟨touched.maxEntries, touched.nextStream⟩

/-- Afterwards its conversation is found as the connection that handled it. -/
theorem find?_take (h : s.Consistent) (handles : s.Handles call r c) :
    (s.take call).session.table.find? call.conversation =
      some { (handled call r c).connection with tsPrev := call.segment.timestamp } := by
  obtain ⟨displaced, indexed⟩ := handles.take_consistent h
  have mem := handles.mem_live_take h
  have own : (handled call r c).connection.conversation = call.conversation :=
    handles.sameIdentity.conversation.trans handles.conversation
  have found := indexed.find?_of_mem mem
  rw [← own]
  exact found

theorem mem_live_take_of_ne (h : s.Consistent) (handles : s.Handles call r c) {e : Connection}
    (other : e.conversation ≠ call.conversation) :
    e ∈ (s.take call).session.table.live ↔ e ∈ r.session.table.live := by
  obtain ⟨displaced, indexed⟩ := handles.consistent h
  rw [handles.mem_live_take_iff h]
  constructor
  · rintro (rfl | ⟨mem, -⟩)
    · exact absurd (handles.sameIdentity.conversation.trans handles.conversation) other
    · exact mem
  · intro mem
    refine Or.inr ⟨mem, fun same => other ?_⟩
    obtain rfl := List.inj_on_of_nodup_map indexed.nodup_streams mem handles.mem same
    exact handles.conversation

end Handles

/-- What a quiet call does to the table before its segment is handled, if it is. -/
theorem Quiet.table_cases {s : Session} {call : Call} (h : s.Quiet call) :
    (s.opens call = true ∧ ∃ r c, s.Handles call r c ∧ r.session.table =
        (s.table.vacate call.conversation).addNew call.conversation call.segment.timestamp) ∨
      (s.opens call = false ∧ ∃ r c, s.Handles call r c ∧ r.session.table = s.table) ∨
      (s.opens call = false ∧ (s.take call).session.table = s.table) := by
  cases opens : s.opens call with
  | true =>
      obtain ⟨r, handles, -, -, table⟩ := h.exists_opened opens
      exact Or.inl ⟨rfl, r, _, handles, table⟩
  | false =>
      cases found : s.table.find? call.conversation with
      | some c =>
          obtain ⟨r, handles, -, -, table⟩ := h.exists_found opens found
          exact Or.inr (Or.inl ⟨rfl, r, c, handles, table⟩)
      | none =>
          rw [take_of_refused (h.refused opens found)]
          exact Or.inr (Or.inr ⟨rfl, h.swept_table⟩)

/-- **A quiet call leaves other conversations alone.** -/
theorem Quiet.mem_live_take {s : Session} {call : Call} (h : s.Quiet call) {e : Connection}
    (other : e.conversation ≠ call.conversation) :
    e ∈ (s.take call).session.table.live ↔ e ∈ s.table.live := by
  rcases h.table_cases with ⟨-, r, c, handles, table⟩ | ⟨-, r, c, handles, table⟩ | ⟨-, table⟩
  · rw [handles.mem_live_take_of_ne h.consistent other, table]
    show e ∈ s.table.live.filter (·.conversation != call.conversation) ++ [_] ↔ _
    rw [List.mem_append, List.mem_filter, List.mem_singleton]
    constructor
    · rintro (⟨mem, -⟩ | rfl)
      · exact mem
      · exact absurd rfl other
    · exact fun mem => Or.inl ⟨mem, bne_iff_ne.2 other⟩
  · rw [handles.mem_live_take_of_ne h.consistent other, table]
  · rw [table]

/-- The table keeps its limit, and numbers one stream more if the call opens a connection. -/
theorem Quiet.numbering_take {s : Session} {call : Call} (h : s.Quiet call) :
    (s.take call).session.table.maxEntries = s.table.maxEntries ∧
      (s.take call).session.table.nextStream =
        s.table.nextStream + if s.opens call then 1 else 0 := by
  rcases h.table_cases with ⟨opens, r, c, handles, table⟩ | ⟨opens, r, c, handles, table⟩ |
    ⟨opens, table⟩
  · have same := handles.sameNumbering_take h.consistent
    rw [same.maxEntries, same.nextStream, table, opens]
    exact ⟨rfl, rfl⟩
  · have same := handles.sameNumbering_take h.consistent
    rw [same.maxEntries, same.nextStream, table, opens]
    exact ⟨rfl, rfl⟩
  · rw [table, opens]
    exact ⟨rfl, rfl⟩

/-! ### Two sessions -/

/-- The second session follows the conversation as the first one does, under other numbers. -/
structure Twin (number : Nat → Nat) (conversation : Conversation) (s t : Session) : Prop where
  config : t.config = s.config
  found : s.table.find? conversation = (t.table.find? conversation).map (·.relabel number)

namespace Twin

variable {number : Nat → Nat} {s t : Session} {call : Call}

theorem opens_eq (twin : Twin number call.conversation s t) : s.opens call = t.opens call := by
  unfold Session.opens
  rw [twin.found, twin.config]
  cases t.table.find? call.conversation <;> rfl

/-- Twins that handle a call in the same way remain twins, and tell the same. -/
theorem of_handles {r r' : Resolved} {c : Connection} (off : s.config.multipath = false)
    (config : t.config = s.config) (quiet : s.Quiet call) (quiet' : t.Quiet call)
    (handles : s.Handles call r (c.relabel number)) (handles' : t.Handles call r' c)
    (reused : r.reused = r'.reused)
    (retired : r.retired = r'.retired.map (·.relabel number)) :
    Twin number call.conversation (s.take call).session (t.take call).session ∧
      (s.take call).told = relabelTold number (t.take call).told := by
  have same : r'.session.config = r.session.config := by
    rw [handles.config, handles'.config, config]
  have off' : r'.session.config.multipath = false := by
    rw [same, handles.config, off]
  have handling : handled call r (c.relabel number) =
      { connection := (handled call r' c).connection.relabel number
        registry := r.session.registry
        report := (handled call r' c).report.relabel number
        pdus := (handled call r' c).pdus } := by
    unfold handled
    rw [← same]
    exact c.handle_relabel number _ _ _ _ _ _ off'
  refine ⟨⟨?_, ?_⟩, ?_⟩
  · rw [config_take quiet.consistent, config_take quiet'.consistent, config]
  · rw [handles.find?_take quiet.consistent, handles'.find?_take quiet'.consistent, handling]
    rfl
  · have stream : r.stream = number r'.stream := by
      rw [← handles.stream, ← handles'.stream]
      rfl
    rw [handles.take_eq quiet.consistent, handles'.take_eq quiet'.consistent, handling,
      quiet.sweepReports_eq, quiet'.sweepReports_eq, reused, retired, stream]
    have delivered : (handled call r' c).pdus.map (Delivery.mk (number r'.stream) call.direction) =
        ((handled call r' c).pdus.map (Delivery.mk r'.stream call.direction)).map
          (·.relabel number) := by
      rw [List.map_map]
      rfl
    exact Prod.ext rfl delivered

/-- **A call of the conversation keeps twins, and tells the same.** -/
theorem take (twin : Twin number call.conversation s t) (off : s.config.multipath = false)
    (quiet : s.Quiet call) (quiet' : t.Quiet call)
    (fresh : t.opens call = true → number t.table.nextStream = s.table.nextStream) :
    Twin number call.conversation (s.take call).session (t.take call).session ∧
      (s.take call).told = relabelTold number (t.take call).told := by
  cases opens : t.opens call with
  | true =>
      obtain ⟨r, handles, reused, retired, -⟩ := quiet.exists_opened (twin.opens_eq.trans opens)
      obtain ⟨r', handles', reused', retired', -⟩ := quiet'.exists_opened opens
      rw [← fresh opens] at handles
      rw [twin.found] at reused retired
      refine of_handles off twin.config quiet quiet' handles handles' ?_ ?_
      · rw [reused, reused', Option.isSome_map]
      · rw [retired, retired']
        cases t.table.find? call.conversation with
        | none => rfl
        | some c =>
            show displacedReport (c.relabel number) ++ [] = (displacedReport c ++ []).map _
            rw [List.append_nil, List.append_nil, displacedReport_relabel]
  | false =>
      have opens' := twin.opens_eq.trans opens
      cases found : t.table.find? call.conversation with
      | some c =>
          have found' := twin.found
          rw [found, Option.map_some] at found'
          obtain ⟨r, handles, reused, retired, -⟩ := quiet.exists_found opens' found'
          obtain ⟨r', handles', reused', retired', -⟩ := quiet'.exists_found opens found
          refine of_handles off twin.config quiet quiet' handles handles' ?_ ?_
          · rw [reused, reused']
          · rw [retired, retired', List.map_nil]
      | none =>
          have missing := twin.found
          rw [found, Option.map_none] at missing
          rw [take_of_refused (quiet.refused opens' missing),
            take_of_refused (quiet'.refused opens found)]
          refine ⟨⟨?_, ?_⟩, rfl⟩
          · rw [Session.swept, Session.swept, sweepIdle_config, sweepIdle_config, twin.config]
          · rw [quiet.swept_table, quiet'.swept_table, found, missing, Option.map_none]

/-- A call of another conversation does not concern the twin. -/
theorem take_other {conversation : Conversation} (twin : Twin number conversation s t)
    (quiet : s.Quiet call) (other : call.conversation ≠ conversation) :
    Twin number conversation (s.take call).session t where
  config := by rw [config_take quiet.consistent, twin.config]
  found := by
    obtain ⟨displaced, indexed⟩ := quiet.consistent.take call
    rw [indexed.find?_congr fun e own => quiet.mem_live_take (own.trans_ne other.symm), twin.found]

/-- Only the numbers of streams that have opened count. -/
theorem congr {conversation : Conversation} {number' : Nat → Nat}
    (twin : Twin number conversation s t) (consistent : t.Consistent)
    (same : ∀ n < t.table.nextStream, number' n = number n) : Twin number' conversation s t where
  config := twin.config
  found := by
    obtain ⟨displaced, indexed⟩ := consistent
    rw [twin.found]
    cases found : t.table.find? conversation with
    | none => rfl
    | some c =>
        have known := same c.stream (indexed.stream_lt c (List.mem_of_find?_eq_some found))
        rw [Option.map_some, Option.map_some, Connection.relabel, Connection.relabel, known]

end Twin

/-! ### Room for all -/

/-- The session only follows some conversations, and its table has room for them all. -/
structure Roomy (s : Session) (all : List Conversation) : Prop where
  consistent : s.Consistent
  known : ∀ c ∈ s.table.live, c.conversation ∈ all
  room : all.length ≤ s.table.maxEntries

namespace Roomy

variable {s : Session} {all : List Conversation} {call : Call}

theorem new (config : Config) (few : all.length ≤ config.maxConnections) :
    (new config).Roomy all where
  consistent := consistent_new config
  known := fun _ mem => absurd mem List.not_mem_nil
  room := few

/-- While one of the conversations opens a connection, the others leave room for it. -/
theorem quiet (h : s.Roomy all) (mem : call.conversation ∈ all)
    (early : call.segment.timestamp ≤ s.config.idleTimeout) : s.Quiet call where
  consistent := h.consistent
  early := early
  room := by
    obtain ⟨displaced, indexed⟩ := h.consistent
    let others := (s.table.vacate call.conversation).live.map (·.conversation)
    have nodup : others.Nodup := indexed.conversations.sublist (List.filter_sublist.map _)
    have subset : others ⊆ all.erase call.conversation := by
      intro conversation there
      obtain ⟨c, hc, rfl⟩ := List.mem_map.1 there
      obtain ⟨live, other⟩ := List.mem_filter.1 hc
      exact (List.mem_erase_of_ne (bne_iff_ne.1 other)).2 (h.known c live)
    have count := (List.subperm_of_subset nodup subset).length_le
    rw [List.length_map, List.length_erase_of_mem mem] at count
    have pos := List.length_pos_of_mem mem
    have := h.room
    show (s.table.vacate call.conversation).live.length < _
    omega

theorem take (h : s.Roomy all) (mem : call.conversation ∈ all) (quiet : s.Quiet call) :
    (s.take call).session.Roomy all where
  consistent := h.consistent.take call
  known := by
    intro c live
    by_cases own : c.conversation = call.conversation
    · exact own ▸ mem
    · exact h.known c ((quiet.mem_live_take own).1 live)
  room := quiet.numbering_take.1 ▸ h.room

end Roomy

/-! ### Whole runs -/

theorem toldIn_cons_own (s : Session) {conversation : Conversation} {call : Call}
    (own : call.conversation = conversation) (rest : List Call) :
    s.toldIn conversation (call :: rest) =
      (s.take call).told :: (s.take call).session.toldIn conversation rest := by
  unfold toldIn
  rw [run, List.zip_cons_cons, List.filter_cons_of_pos (by simpa using own), List.map_cons]

theorem toldIn_cons_other (s : Session) {conversation : Conversation} {call : Call}
    (other : call.conversation ≠ conversation) (rest : List Call) :
    s.toldIn conversation (call :: rest) = (s.take call).session.toldIn conversation rest := by
  unfold toldIn
  rw [run, List.zip_cons_cons, List.filter_cons_of_neg (by simpa using other)]

/-- The first streams have the given numbers, which rise, and lie below `next`. -/
structure Numbers (number : Nat → Nat) (count next : Nat) : Prop where
  rises : ∀ i j, i < j → j < count → number i < number j
  below : ∀ i < count, number i < next

namespace Numbers

variable {number : Nat → Nat} {count next : Nat}

theorem mono (h : Numbers number count next) {later : Nat} (le : next ≤ later) :
    Numbers number count later where
  rises := h.rises
  below i lt := Nat.lt_of_lt_of_le (h.below i lt) le

/-- The stream that opens next gets the next number. -/
theorem update (h : Numbers number count next) :
    Numbers (Function.update number count next) (count + 1) (next + 1) where
  rises i j lt le := by
    rw [Function.update_of_ne (by omega)]
    by_cases last : j = count
    · rw [last, Function.update_self]
      exact h.below i (by omega)
    · rw [Function.update_of_ne last]
      exact h.rises i j lt (by omega)
  below i lt := by
    by_cases last : i = count
    · rw [last, Function.update_self]
      exact Nat.lt_succ_self next
    · rw [Function.update_of_ne last]
      exact Nat.lt_succ_of_lt (h.below i (by omega))

/-- Numbers beyond the first streams can be added. -/
theorem exists_strictMono (h : Numbers number count next) :
    ∃ total : Nat → Nat, StrictMono total ∧ ∀ i < count, total i = number i := by
  refine ⟨fun i => if i < count then number i else next + i, ?_, fun i lt => if_pos lt⟩
  intro i j lt
  dsimp only
  have := h.rises i j lt
  have := h.below i
  split <;> split <;> omega

end Numbers

/-- A call of the conversation opens streams in both sessions or in neither, and their numbers can be
paired. -/
theorem Twin.exists_numbers {number : Nat → Nat} {s t : Session} {call : Call}
    (twin : Twin number call.conversation s t) (quiet : s.Quiet call) (quiet' : t.Quiet call)
    (numbers : Numbers number t.table.nextStream s.table.nextStream) :
    ∃ number', (∀ i < t.table.nextStream, number' i = number i) ∧
      (t.opens call = true → number' t.table.nextStream = s.table.nextStream) ∧
      Numbers number' (t.take call).session.table.nextStream
        (s.take call).session.table.nextStream := by
  rw [quiet.numbering_take.2, quiet'.numbering_take.2, twin.opens_eq]
  cases t.opens call with
  | true =>
      refine ⟨Function.update number t.table.nextStream s.table.nextStream, ?_, ?_, numbers.update⟩
      · exact fun i lt => Function.update_of_ne (Nat.ne_of_lt lt) _ _
      · exact fun _ => Function.update_self _ _ _
  | false => exact ⟨number, fun _ _ => rfl, fun opens => absurd opens Bool.false_ne_true, numbers⟩

/-- **A run tells the calls of a conversation what it would tell them alone**, under other numbers
that rise with those given to streams before. -/
theorem exists_toldIn_eq {all : List Conversation} {conversation : Conversation}
    {number : Nat → Nat} {s t : Session} {calls : List Call} (off : s.config.multipath = false)
    (roomy : s.Roomy all) (roomy' : t.Roomy all) (twin : Twin number conversation s t)
    (numbers : Numbers number t.table.nextStream s.table.nextStream)
    (known : ∀ call ∈ calls, call.conversation ∈ all)
    (early : ∀ call ∈ calls, call.segment.timestamp ≤ s.config.idleTimeout) :
    ∃ total : Nat → Nat, StrictMono total ∧ (∀ i < t.table.nextStream, total i = number i) ∧
      s.toldIn conversation calls =
        (t.run (calls.filter (·.conversation = conversation))).map
          fun p => relabelTold total p.told := by
  induction calls generalizing s t number with
  | nil =>
      obtain ⟨total, rises, same⟩ := numbers.exists_strictMono
      exact ⟨total, rises, same, rfl⟩
  | cons call rest ih =>
      have mem := known call List.mem_cons_self
      have quiet := roomy.quiet mem (early call List.mem_cons_self)
      have off' : (s.take call).session.config.multipath = false := by
        rw [config_take roomy.consistent, off]
      have known' : ∀ later ∈ rest, later.conversation ∈ all :=
        fun later hlater => known later (List.mem_cons_of_mem call hlater)
      have early' : ∀ later ∈ rest,
          later.segment.timestamp ≤ (s.take call).session.config.idleTimeout := by
        rw [config_take roomy.consistent]
        exact fun later hlater => early later (List.mem_cons_of_mem call hlater)
      by_cases own : call.conversation = conversation
      · subst own
        have quiet' : t.Quiet call :=
          roomy'.quiet mem (twin.config ▸ early call List.mem_cons_self)
        obtain ⟨number', same, fresh, numbers'⟩ := twin.exists_numbers quiet quiet' numbers
        obtain ⟨twin', -⟩ := (twin.congr roomy'.consistent same).take off quiet quiet' fresh
        obtain ⟨total, rises, agrees, told⟩ :=
          ih off' (roomy.take mem quiet) (roomy'.take mem quiet') twin' numbers' known' early'
        have next := quiet'.numbering_take.2
        have agrees' : ∀ i < t.table.nextStream, total i = number i :=
          fun i lt => (agrees i (by omega)).trans (same i lt)
        have fresh' : t.opens call = true → total t.table.nextStream = s.table.nextStream := by
          intro opens
          rw [opens, if_pos rfl] at next
          exact (agrees _ (by omega)).trans (fresh opens)
        -- the report of this call is about streams that `total` and `number` know alike
        have first := ((twin.congr roomy'.consistent agrees').take off quiet quiet' fresh').2
        refine ⟨total, rises, agrees', ?_⟩
        rw [toldIn_cons_own s rfl, List.filter_cons_of_pos (by simp), run, List.map_cons, told, first]
      · have le : s.table.nextStream ≤ (s.take call).session.table.nextStream := by
          rw [quiet.numbering_take.2]
          exact Nat.le_add_right _ _
        obtain ⟨total, rises, agrees, told⟩ := ih off' (roomy.take mem quiet) roomy'
          (twin.take_other quiet own) (numbers.mono le) known' early'
        refine ⟨total, rises, agrees, ?_⟩
        rw [toldIn_cons_other s own, List.filter_cons_of_neg (by simpa using own), told]

/-- **Connections do not influence each other.**  Multipath is off, there are no more conversations
than the table has room for, and no time is past the idle timeout.  Then, whatever calls come between,
the calls of each conversation are told what a new session tells them that takes no other calls; only
the streams have other numbers, in the same order. -/
theorem toldIn_eq_alone {config : Config} {calls : List Call} (off : config.multipath = false)
    (few : (calls.map (·.conversation)).dedup.length ≤ config.maxConnections)
    (early : ∀ call ∈ calls, call.segment.timestamp ≤ config.idleTimeout)
    (conversation : Conversation) :
    ∃ number : Nat → Nat, StrictMono number ∧
      (new config).toldIn conversation calls =
        ((new config).run (calls.filter (·.conversation = conversation))).map
          fun p => relabelTold number p.told := by
  have roomy := Roomy.new config few
  have twin : Twin (fun n => n) conversation (new config) (new config) := ⟨rfl, rfl⟩
  have numbers : Numbers (fun n => n) 0 0 :=
    ⟨fun _ _ _ lt => absurd lt (Nat.not_lt_zero _), fun _ lt => absurd lt (Nat.not_lt_zero _)⟩
  obtain ⟨number, rises, -, told⟩ := exists_toldIn_eq off roomy roomy twin numbers
    (fun call mem => List.mem_dedup.2 (List.mem_map_of_mem mem)) early
  exact ⟨number, rises, told⟩

/-- Three conversations take turns, and the table has room for three: one is reset and starts over, one
sends a PDU in between, and one is refused.  The first one has streams 0 and 2; alone it would have 0
and 1. -/
theorem toldIn_eq_alone_interleaved :
    let first : Endpoint := ⟨.v4 0x0a000001, 40000⟩
    let second : Endpoint := ⟨.v4 0x0a000001, 40001⟩
    let third : Endpoint := ⟨.v4 0x0a000001, 40002⟩
    let server : Endpoint := ⟨.v4 0x0a000002, 443⟩
    let probe : LengthProbe := LengthField.probe ⟨0, .one, 1⟩
    let config : Config :=
      { multipath := false, acceptMidstream := false, maxConnections := 3, idleTimeout := 100 }
    let calls : List Call := [
      { segment := { source := first, destination := server, timestamp := 10, flags.syn := true } },
      { segment := { source := second, destination := server, timestamp := 20, flags.syn := true } },
      { segment := { source := first, destination := server, timestamp := 30, seq := 1
                     flags.rst := true } },
      { segment := { source := third, destination := server, timestamp := 40, flags.ack := true } },
      { segment := { source := first, destination := server, timestamp := 100, flags.syn := true } },
      { segment := { source := second, destination := server, timestamp := 100, seq := 1
                     payload := [2, 10] }, probe },
      { segment := { source := first, destination := server, timestamp := 100, seq := 1
                     payload := [3, 11, 12, 1] }, probe }]
    let conversation := (Conversation.between first server).1
    (config.multipath = false ∧
        (calls.map (·.conversation)).dedup.length ≤ config.maxConnections ∧
        ∀ call ∈ calls, call.segment.timestamp ≤ config.idleTimeout) ∧
      (∃ number : Nat → Nat, StrictMono number ∧
        (new config).toldIn conversation calls =
          ((new config).run (calls.filter (·.conversation = conversation))).map
            fun p => relabelTold number p.told) ∧
      ((new config).toldIn conversation calls).map (fun told => told.1.toOption.map (·.stream)) =
        [some 0, some 0, some 2, some 2] := by
  intro first second third server probe config calls conversation
  have few : (calls.map (·.conversation)).dedup.length ≤ config.maxConnections := by decide +kernel
  have early : ∀ call ∈ calls, call.segment.timestamp ≤ config.idleTimeout := by decide
  exact ⟨⟨rfl, few, early⟩, toldIn_eq_alone rfl few early conversation, by decide +kernel⟩

end Session

end TcpCapture
