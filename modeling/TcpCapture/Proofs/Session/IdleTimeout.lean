import TcpCapture.Proofs.Connection.Expiry
import TcpCapture.Proofs.Session.Teardown

/-!
# How long a connection may be idle

Idle connections are taken out by sweeps, and a sweep only comes with a segment, some time after the one
before.  That is often enough: on a clock that never runs backwards no connection outlives its timeout by
more than a quarter.

## Main definitions

* `Session.retiredIdle` — the connections the sweep before a call takes out
* `Session.SweptAt` — the last sweep is a short time ago, and every live connection passed it

**A sweep reads the index, not the connections.**  It goes through the activity index from its oldest
entry on and stops at the first one that is fresh.  Entries left behind by connections that gave way lie in
between; they take nobody out, and since the index is in order they hide nobody either
(`live_expireIdle`).
-/

namespace TcpCapture

namespace Session

/-! ### What a sweep retires -/

/-- The connections that the sweep before a call takes out of the table. -/
def retiredIdle (s : Session) (call : Call) : List Connection :=
  s.table.live.filter fun c => decide (c ∉ (s.swept call).table.live)

theorem retireAll_lastSweep (s : Session) (reason : Connection → TeardownReason)
    (cs : List Connection) : (s.retireAll reason cs).1.lastSweep = s.lastSweep := by
  obtain ⟨retired, h⟩ := s.retireAll_eq reason cs
  rw [h]

theorem resolve_lastSweep {s : Session} {conversation : Conversation} {d : Direction}
    {segment : Segment} {r : Resolved} (ok : s.resolve conversation d segment = .ok r) :
    r.session.lastSweep = s.lastSweep := by
  rcases resolve_cases ok with ⟨c, -, rfl⟩ | ⟨reused, rfl⟩
  · rfl
  · exact retireAll_lastSweep _ _ _

theorem swept_of_early {s : Session} {call : Call}
    (early : call.segment.timestamp - s.lastSweep ≤ s.config.sweepInterval) : s.swept call = s := by
  unfold swept sweepIdle
  rw [if_pos early]

variable {s : Session} {call : Call}

/-- A sweep that is due leaves the connections that have not expired, and notes when it took place. -/
theorem swept_of_due (h : s.Consistent)
    (due : s.config.sweepInterval < call.segment.timestamp - s.lastSweep) :
    (s.swept call).table.live = s.table.live.filter
        (fun c => !isExpired call.segment.timestamp c.tsPrev s.config.idleTimeout) ∧
      (s.swept call).lastSweep = call.segment.timestamp := by
  obtain ⟨displaced, indexed⟩ := h
  unfold swept sweepIdle
  rw [if_neg (Nat.not_le.2 due)]
  constructor
  · dsimp only
    rw [retireAll_table]
    exact indexed.live_expireIdle _ _
  · exact retireAll_lastSweep _ _ _

/-- A sweep retires exactly the connections that have expired, if it is due. -/
theorem mem_retiredIdle_iff (h : s.Consistent) {c : Connection} :
    c ∈ s.retiredIdle call ↔ c ∈ s.table.live ∧
      s.config.sweepInterval < call.segment.timestamp - s.lastSweep ∧
      s.config.idleTimeout < call.segment.timestamp - c.tsPrev := by
  unfold retiredIdle
  rw [List.mem_filter, decide_eq_true_eq]
  refine and_congr_right fun mem => ?_
  by_cases due : s.config.sweepInterval < call.segment.timestamp - s.lastSweep
  · rw [(swept_of_due h due).1, List.mem_filter, Bool.not_eq_true', ← Bool.not_eq_true,
      isExpired, decide_eq_true_eq]
    exact ⟨fun gone => ⟨due, Decidable.of_not_not fun recent => gone ⟨mem, recent⟩⟩,
      fun expired kept => kept.2 expired.2⟩
  · rw [swept_of_early (Nat.not_lt.1 due)]
    exact ⟨fun gone => absurd mem gone, fun expired => absurd expired.1 due⟩

/-- Every report of some retired connections is about one of them, and gives the reason for it. -/
theorem exists_of_mem_retireAll {s : Session} {reason : Connection → TeardownReason}
    {cs : List Connection} {t : TeardownReport} (mem : t ∈ (s.retireAll reason cs).2) :
    ∃ c ∈ cs, t.stream = c.stream ∧ t.reason = reason c := by
  induction cs generalizing s with
  | nil => cases mem
  | cons c rest ih =>
      have mem : t ∈ (s.retire c (reason c)).2.toList ++
          ((s.retire c (reason c)).1.retireAll reason rest).2 := mem
      rcases List.mem_append.1 mem with mem | mem
      · refine ⟨c, List.mem_cons_self, ?_⟩
        unfold retire at mem
        cases closed : c.closed with
        | true => simp [closed] at mem
        | false =>
            simp only [closed, Bool.false_eq_true, if_false, Option.toList_some,
              List.mem_singleton] at mem
            subst mem
            exact ⟨rfl, rfl⟩
      · obtain ⟨d, there, about⟩ := ih mem
        exact ⟨d, List.mem_cons_of_mem c there, about⟩

/-- What a sweep reports is about a connection it retires. -/
theorem exists_of_mem_sweepReports (h : s.Consistent) {t : TeardownReport}
    (mem : t ∈ s.sweepReports call) : ∃ c ∈ s.retiredIdle call, c.stream = t.stream := by
  obtain ⟨displaced, indexed⟩ := id h
  unfold sweepReports sweepIdle at mem
  split at mem
  · cases mem
  · rename_i late
    obtain ⟨c, out, stream, -⟩ := exists_of_mem_retireAll mem
    refine ⟨c, ?_, stream.symm⟩
    -- the table splits into what was taken out and what is left, and no stream is in both
    have split := indexed.removeAll_perm
      (s.table.expiredStreams call.segment.timestamp s.config.idleTimeout)
    have there : c ∈ s.table.live := split.subset (List.mem_append_left _ out)
    have once := (split.map Connection.stream).nodup_iff.2 indexed.nodup_streams
    rw [List.map_append] at once
    have gone : c ∉ (s.table.expireIdle call.segment.timestamp s.config.idleTimeout).1.live :=
      fun kept => (List.nodup_append.1 once).2.2 _ (List.mem_map_of_mem out) _
        (List.mem_map_of_mem kept) rfl
    unfold retiredIdle
    rw [List.mem_filter, decide_eq_true_eq, (swept_of_due h (Nat.not_le.1 late)).1,
      ← indexed.live_expireIdle]
    exact ⟨there, gone⟩

/-- A connection that is pushed out, or that ends, is reported for another reason. -/
theorem mem_sweepReports_of_idle (h : s.Consistent) {t : TeardownReport}
    (mem : t ∈ (s.take call).handedOut) (idle : t.reason = .idle) : t ∈ s.sweepReports call := by
  rcases s.take_cases call with ⟨e, refused⟩ | ⟨r, c, handles⟩
  · rw [take_of_refused refused] at mem
    cases mem
  · rw [handles.take_eq h] at mem
    have mem : t ∈ (s.sweepReports call ++ r.retired) ++
        (handled call r c).report.teardown.toList := mem
    rcases List.mem_append.1 mem with mem | own
    · refine (List.mem_append.1 mem).resolve_right fun pushedOut => ?_
      rcases resolve_cases handles.resolved with ⟨c', -, rfl⟩ | ⟨reused, rfl⟩
      · cases pushedOut
      · obtain ⟨c', -, -, reason⟩ := exists_of_mem_retireAll pushedOut
        rw [idle] at reason
        split at reason <;> cases reason
    · unfold handled at own
      rw [Connection.handle_teardown] at own
      unfold Connection.endWith at own
      split at own
      · cases own
      · obtain rfl := List.mem_singleton.1 own
        simp only [Connection.teardown] at idle
        split at idle <;> cases idle

/-! ### The bound -/

/-- At a time `now` the last sweep is at most one interval ago, and every live connection was active
late enough to pass it. -/
structure SweptAt (now : Nat) (s : Session) : Prop where
  past : s.lastSweep ≤ now
  recent : now ≤ s.lastSweep + s.config.sweepInterval
  passed : ∀ c ∈ s.table.live, s.lastSweep ≤ c.tsPrev + s.config.idleTimeout

namespace SweptAt

theorem new (config : Config) : SweptAt 0 (Session.new config) where
  past := Nat.le_refl 0
  recent := Nat.zero_le _
  passed := fun _ mem => absurd mem List.not_mem_nil

/-- The interval since the last sweep adds to the timeout. -/
theorem idle_le {now : Nat} (h : SweptAt now s) {c : Connection} (mem : c ∈ s.table.live) :
    now - c.tsPrev ≤ s.config.idleTimeout + s.config.idleTimeout / 4 := by
  have recent := h.recent
  have passed := h.passed c mem
  unfold Config.sweepInterval at recent
  omega

/-- Before a segment is resolved a sweep has taken place, or was not due yet. -/
theorem swept {now : Nat} (h : SweptAt now s) (consistent : s.Consistent)
    (later : now ≤ call.segment.timestamp) : SweptAt call.segment.timestamp (s.swept call) := by
  have config : (s.swept call).config = s.config := sweepIdle_config s _
  by_cases due : s.config.sweepInterval < call.segment.timestamp - s.lastSweep
  · obtain ⟨live, noted⟩ := swept_of_due consistent due
    refine ⟨Nat.le_of_eq noted, by rw [noted]; exact Nat.le_add_right _ _, ?_⟩
    intro c mem
    rw [live, List.mem_filter, Bool.not_eq_true', ← Bool.not_eq_true, isExpired_iff] at mem
    rw [noted, config]
    exact Nat.not_lt.1 mem.2
  · have past := h.past
    rw [swept_of_early (Nat.not_lt.1 due)]
    exact ⟨by omega, by omega, h.passed⟩

/-- Whoever opens or handles the segment is active now. -/
theorem take {now : Nat} (h : SweptAt now s) (consistent : s.Consistent)
    (later : now ≤ call.segment.timestamp) :
    SweptAt call.segment.timestamp (s.take call).session := by
  have swept := h.swept consistent later
  rcases s.take_cases call with ⟨e, refused⟩ | ⟨r, c, handles⟩
  · rw [take_of_refused refused]
    exact swept
  · have same : (s.take call).session.lastSweep = (s.swept call).lastSweep := by
      rw [handles.take_eq consistent]
      exact resolve_lastSweep handles.resolved
    have config : (s.take call).session.config = (s.swept call).config :=
      (config_take consistent call).trans (sweepIdle_config s _).symm
    have active (c : Connection) (now : c.tsPrev = call.segment.timestamp) :
        (s.swept call).lastSweep ≤ c.tsPrev + (s.swept call).config.idleTimeout := by
      rw [now]
      exact Nat.le_trans swept.past (Nat.le_add_right _ _)
    refine ⟨same ▸ swept.past, same ▸ config ▸ swept.recent, ?_⟩
    intro c' mem
    rw [same, config]
    rcases (handles.mem_live_take_iff consistent).1 mem with rfl | ⟨mem, -⟩
    · exact active _ rfl
    · rcases (consistent.swept call).live_resolve handles.resolved mem with mem | rfl
      · exact swept.passed c' mem
      · exact active _ rfl

end SweptAt

/-- On a clock that never runs backwards a sweep is at most one interval ago at all times. -/
theorem sweptAt_after (config : Config) {calls : List Call} {call : Call}
    (ordered : (calls ++ [call]).Pairwise fun x y => x.segment.timestamp ≤ y.segment.timestamp) :
    ∃ now, now ≤ call.segment.timestamp ∧ SweptAt now ((new config).after calls) := by
  induction calls using List.reverseRecOn generalizing call with
  | nil => exact ⟨0, Nat.zero_le _, .new config⟩
  | append_singleton earlier last ih =>
      obtain ⟨before, -, then_⟩ := List.pairwise_append.1 ordered
      obtain ⟨now, later, swept⟩ := ih before
      refine ⟨last.segment.timestamp, ?_, ?_⟩
      · exact then_ last (List.mem_append_right _ (List.mem_singleton_self _)) call
          (List.mem_singleton_self _)
      · rw [after_concat]
        exact swept.take ((consistent_new config).after earlier) later

/-- **Idle connections cannot linger, and others are not retired for it.**  In a run on a clock that never
runs backwards, after every call, handled or refused, each live connection was active no longer ago than
the timeout and a quarter of it.  What the sweep before the call took out had been idle for longer than the
timeout, and so had every connection whose report gives that reason. -/
theorem idle_bounded (config : Config) {calls : List Call} {call : Call}
    (ordered : (calls ++ [call]).Pairwise fun x y => x.segment.timestamp ≤ y.segment.timestamp) :
    let s := (new config).after calls
    let now := call.segment.timestamp
    (∀ c ∈ (s.take call).session.table.live,
        now - c.tsPrev ≤ config.idleTimeout + config.idleTimeout / 4) ∧
      (∀ c ∈ s.retiredIdle call, config.idleTimeout < now - c.tsPrev) ∧
      ∀ t ∈ (s.take call).handedOut, t.reason = .idle →
        ∃ c ∈ s.retiredIdle call, c.stream = t.stream := by
  intro s now
  have consistent : s.Consistent := (consistent_new config).after calls
  have same : s.config = config := config_after (consistent_new config) calls
  obtain ⟨earlier, later, swept⟩ := sweptAt_after config ordered
  refine ⟨?_, ?_, ?_⟩
  · intro c mem
    have bound := (swept.take consistent later).idle_le mem
    rw [config_take consistent, same] at bound
    exact bound
  · intro c mem
    rw [← same]
    exact ((mem_retiredIdle_iff consistent).1 mem).2.2
  · intro t mem idle
    exact exists_of_mem_sweepReports consistent (mem_sweepReports_of_idle consistent mem idle)

/-- With a timeout of 8, sweeps are more than 2 apart.  At 10 the connection of time 1 is retired and that
of time 2, idle for just 8, is not; at 12 it is idle for 10 and still there, for no sweep is due. -/
theorem idle_bounded_between_sweeps :
    let client (port : UInt16) : Endpoint := ⟨.v4 0x0a000001, port⟩
    let server : Endpoint := ⟨.v4 0x0a000002, 443⟩
    let segment (port : UInt16) (timestamp : Nat) : Segment :=
      { source := client port, destination := server, flags.syn := true, timestamp }
    let calls : List Call := [⟨segment 1 1, none⟩, ⟨segment 2 2, none⟩, ⟨segment 3 10, none⟩]
    let call : Call := ⟨segment 4 12, none⟩
    let config : Config := { idleTimeout := 8 }
    (calls ++ [call]).Pairwise (fun x y => x.segment.timestamp ≤ y.segment.timestamp) ∧
      (((new config).after calls).take call).session.table.live.map (·.tsPrev) = [2, 10, 12] ∧
      ∀ c ∈ (((new config).after calls).take call).session.table.live,
        call.segment.timestamp - c.tsPrev ≤ config.idleTimeout + config.idleTimeout / 4 := by
  intro client server segment calls call config
  have ordered : (calls ++ [call]).Pairwise
      fun x y => x.segment.timestamp ≤ y.segment.timestamp := by
    decide
  have bound := (idle_bounded config ordered).1
  exact ⟨ordered, by decide +kernel, bound⟩

end Session

end TcpCapture
