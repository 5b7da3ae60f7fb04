import TcpCapture.Proofs.Multipath.Calls

/-!
# Where every subflow byte ends up

Over any sequence of calls each byte that was to be placed is in one place: among the bytes that one
call returned as placed, among those that one call gave up, or still pending.

## Main definitions

* `CarriedByte` — a byte of a call that asks for bytes to be placed
* `Whereabouts` — the places a byte can be in; `positionsAt`, what some calls leave in one of them
* `Tracks` — an assignment of bytes to places that agrees with what is there

**Bytes have names, pieces do not.**  Some calls may place the same position twice, and a piece does
not say which call brought it.  So the statement is about an assignment of the carried bytes to places
under which every place holds just the positions of the bytes assigned to it.
-/

namespace TcpCapture

/-- A byte that a call asks to place. -/
structure CarriedByte where
  /-- Which call, counted from 0. -/
  call : Nat
  position : Nat
deriving DecidableEq, Repr

/-- Where a carried byte is after some calls. -/
inductive Whereabouts where
  /-- Among the placed bytes that a call returned. -/
  | returned (call : Nat)
  /-- Among the bytes that a call gave up. -/
  | taken (call : Nat)
  | pending
deriving DecidableEq, Repr

namespace MappingOp

/-- The call adds a mapping that holds the position. -/
def covers (p : Nat) : MappingOp → Bool
  | insert ssn len _ _ => (Range.ofLength ssn len).toOption.any (·.holds p)
  | _ => false

/-- How many bytes the call asks to place. -/
def size : MappingOp → Nat
  | place _ len _ => len
  | _ => 0

theorem length_arriving (op : MappingOp) : op.arriving.length = op.size := by
  cases op with
  | place ssn len frame => exact List.length_range'
  | _ => rfl

end MappingOp

/-- What a call leaves in a place of the bytes that waited before or arrived with it. -/
def Performed.positionsAt (o : Performed) (call : Nat) : Whereabouts → List Nat
  | .returned n => if n = call then (o.placed.flatMap AttributedSpan.bytes).map (·.position) else []
  | .taken n => if n = call then o.taken.flatMap PendingSpan.positions else []
  | .pending => o.mappings.waiting

/-- How many bytes a call returned as placed or gave up. -/
def Performed.size (o : Performed) : Nat := totalOf (·.len) o.placed + totalOf (·.len) o.taken

namespace SubflowMappings

/-- The bytes that some calls ask to place. -/
def carried (ops : List MappingOp) : List CarriedByte :=
  ops.zipIdx.flatMap fun (op, call) => op.arriving.map (⟨call, ·⟩)

/-- The positions of the bytes that some calls on new mappings leave in a place. -/
def positionsAt (ops : List MappingOp) : Whereabouts → List Nat
  | .pending => (after {} ops).waiting
  | place => (outcomes {} ops).zipIdx.flatMap fun (o, call) => o.positionsAt call place

/-- The assignment puts into every place the bytes that are there.  It assigns a byte to its own call
or a later one: to one that returned it if that call placed it or added a mapping, to one that gave it
up if that call asked for the pending bytes. -/
structure Tracks (ops : List MappingOp) (fate : CarriedByte → Whereabouts) : Prop where
  places : ∀ place, (((carried ops).filter (fate · = place)).map (·.position)).Perm
    (positionsAt ops place)
  returned : ∀ b ∈ carried ops, ∀ call, fate b = .returned call →
    call = b.call ∨ b.call < call ∧ ∃ op, ops[call]? = some op ∧ op.announces = true
  taken : ∀ b ∈ carried ops, ∀ call, fate b = .taken call →
    b.call < call ∧ ops[call]? = some .takePending

/-! ### One call more -/

theorem carried_snoc (ops : List MappingOp) (op : MappingOp) :
    carried (ops ++ [op]) = carried ops ++ op.arriving.map (⟨ops.length, ·⟩) := by
  unfold carried
  rw [List.zipIdx_append, List.flatMap_append, List.zipIdx_singleton, List.flatMap_singleton,
    Nat.zero_add]

theorem call_lt_of_mem_carried {ops : List MappingOp} {b : CarriedByte} (mem : b ∈ carried ops) :
    b.call < ops.length := by
  obtain ⟨⟨op, call⟩, hop, hb⟩ := List.mem_flatMap.1 mem
  obtain ⟨p, -, rfl⟩ := List.mem_map.1 hb
  have := List.snd_lt_of_mem_zipIdx hop
  omega

/-- No byte has two names. -/
theorem nodup_carried (ops : List MappingOp) : (carried ops).Nodup := by
  induction ops using List.reverseRecOn with
  | nil => exact List.nodup_nil
  | append_singleton ops op ih =>
      rw [carried_snoc]
      have fresh : (op.arriving.map (CarriedByte.mk ops.length)).Nodup := by
        refine List.Nodup.map (fun p q eq => congrArg CarriedByte.position eq) ?_
        cases op with
        | place ssn len frame => exact List.nodup_range'
        | _ => exact List.nodup_nil
      refine List.nodup_append.2 ⟨ih, fresh, ?_⟩
      rintro b old c new rfl
      obtain ⟨p, -, rfl⟩ := List.mem_map.1 new
      exact Nat.lt_irrefl _ (call_lt_of_mem_carried old)

/-- The last call has its own place, and changes none of the others. -/
theorem positionsAt_snoc (ops : List MappingOp) (op : MappingOp) (place : Whereabouts) :
    positionsAt (ops ++ [op]) place =
      (if place = .pending then [] else positionsAt ops place) ++
        ((after {} ops).perform op).positionsAt ops.length place := by
  have both (place : Whereabouts) :
      ((outcomes {} (ops ++ [op])).zipIdx.flatMap fun (o, call) => o.positionsAt call place) =
        ((outcomes {} ops).zipIdx.flatMap fun (o, call) => o.positionsAt call place) ++
          ((after {} ops).perform op).positionsAt ops.length place := by
    rw [outcomes_snoc, List.zipIdx_append, List.flatMap_append, List.zipIdx_singleton,
      List.flatMap_singleton, length_outcomes, Nat.zero_add]
  cases place with
  | pending => exact congrArg waiting (after_snoc {} ops op)
  | returned call => exact both _
  | taken call => exact both _

/-- Where a call moves a byte that waits or arrives. -/
def moves (op : MappingOp) (left : SubflowMappings) (call p : Nat) : Whereabouts :=
  if op = .takePending then .taken call else if left.maps p then .returned call else .pending

theorem moves_takePending (left : SubflowMappings) (call p : Nat) :
    moves .takePending left call p = .taken call := rfl

theorem moves_of_ne {op : MappingOp} (keeps : op ≠ .takePending) (left : SubflowMappings)
    (call p : Nat) :
    moves op left call p = if left.maps p then .returned call else .pending := if_neg keeps

/-- **What a call moves where**: of the bytes that wait or arrive, every place gets those that
`moves` says. -/
theorem Settled.perform_moves {m : SubflowMappings} (h : m.Settled) {op : MappingOp}
    (fits : op.fits = true) (call : Nat) (place : Whereabouts) :
    ((m.waiting ++ op.arriving).filter
        (moves op (m.perform op).mappings call · = place)).Perm
      ((m.perform op).positionsAt call place) := by
  by_cases takes : op = .takePending
  · subst takes
    have arrived : m.waiting ++ MappingOp.takePending.arriving = m.waiting := List.append_nil _
    simp only [arrived, moves_takePending, perform_takePending, Performed.positionsAt]
    cases place with
    | returned n => simp
    | pending => simp [waiting]
    | taken n =>
        by_cases own : n = call
        · simp [waiting, own]
        · simp [own, Ne.symm own]
  · obtain ⟨placed, left⟩ := h.perform_positions fits takes
    simp only [moves_of_ne takes, Performed.positionsAt]
    cases place with
    | returned n =>
        by_cases own : n = call
        · simpa [own] using placed.symm
        · simp [ite_eq_iff, own, Ne.symm own]
    | pending => simp [left]
    | taken n => simp [ite_eq_iff, taken_perform m takes]

theorem moves_eq_returned_iff {op : MappingOp} {left : SubflowMappings} {call p n : Nat} :
    moves op left call p = .returned n ↔
      op ≠ .takePending ∧ left.maps p = true ∧ call = n := by
  by_cases takes : op = .takePending
  · simp [takes, moves_takePending]
  · simp [takes, moves_of_ne takes, ite_eq_iff]

theorem moves_eq_taken_iff {op : MappingOp} {left : SubflowMappings} {call p n : Nat} :
    moves op left call p = .taken n ↔ op = .takePending ∧ call = n := by
  by_cases takes : op = .takePending
  · simp [takes, moves_takePending]
  · simp [takes, moves_of_ne takes, ite_eq_iff]

/-! ### All calls -/

variable {ops : List MappingOp} {fate : CarriedByte → Whereabouts}

/-- The assignment after one call more: it moves the bytes that were pending and those it carries. -/
def movedFate (fate : CarriedByte → Whereabouts) (op : MappingOp) (left : SubflowMappings)
    (call : Nat) (b : CarriedByte) : Whereabouts :=
  if b.call = call ∨ fate b = .pending then moves op left call b.position else fate b

/-- The bytes that are no longer pending stay where they are. -/
theorem Tracks.staying (h : Tracks ops fate) (place : Whereabouts) :
    ((((carried ops).filter (fate · ≠ .pending)).filter (fate · = place)).map (·.position)).Perm
      (if place = .pending then [] else positionsAt ops place) := by
  rw [List.filter_filter]
  split
  · rename_i pending
    refine List.Perm.of_eq (List.map_eq_nil_iff.2 (List.filter_eq_nil_iff.2 fun b _ => ?_))
    simp [pending]
  · rename_i gone
    refine List.Perm.trans (List.Perm.of_eq (congrArg _ ?_)) (h.places place)
    refine List.filter_congr fun b _ => ?_
    by_cases there : fate b = place
    · simp [there, gone]
    · simp [there]

theorem Tracks.position_mem_waiting (h : Tracks ops fate) {b : CarriedByte} (mem : b ∈ carried ops)
    (pending : fate b = .pending) : b.position ∈ (after {} ops).waiting := by
  refine (h.places .pending).mem_iff.1 (List.mem_map_of_mem ?_)
  exact List.mem_filter.2 ⟨mem, decide_eq_true pending⟩

theorem movedFate_of_gone {b : CarriedByte} {call : Nat} (older : b.call < call)
    (gone : fate b ≠ .pending) (op : MappingOp) (left : SubflowMappings) :
    movedFate fate op left call b = fate b :=
  if_neg fun h => h.elim (Nat.ne_of_lt older) gone

/-- **One call more**: the assignment after it agrees with the places again. -/
theorem Tracks.places_snoc (h : Tracks ops fate) (settled : (after {} ops).Settled) {op : MappingOp}
    (fits : op.fits = true) (place : Whereabouts) :
    (((carried (ops ++ [op])).filter
        (movedFate fate op ((after {} ops).perform op).mappings ops.length · = place)).map
        (·.position)).Perm
      (positionsAt (ops ++ [op]) place) := by
  let left := ((after {} ops).perform op).mappings
  let stay := (carried ops).filter (fate · ≠ .pending)
  let new := op.arriving.map (CarriedByte.mk ops.length)
  let held := (carried ops).filter (fate · = .pending) ++ new
  have cut : (stay ++ held).Perm (carried (ops ++ [op])) := by
    rw [carried_snoc, ← List.append_assoc]
    refine List.Perm.append_right new ?_
    have both := List.filter_append_perm (fun b => decide (fate b ≠ .pending)) (carried ops)
    simpa [stay] using both
  have kept : stay.filter (movedFate fate op left ops.length · = place) =
      stay.filter (fate · = place) := by
    refine List.filter_congr fun b mem => ?_
    obtain ⟨old, gone⟩ := List.mem_filter.1 mem
    rw [movedFate_of_gone (call_lt_of_mem_carried old) (of_decide_eq_true gone)]
  have moved : held.filter (movedFate fate op left ops.length · = place) =
      held.filter fun b => moves op left ops.length b.position = place := by
    refine List.filter_congr fun b mem => ?_
    have moving : b.call = ops.length ∨ fate b = .pending := by
      rcases List.mem_append.1 mem with old | arrived
      · exact Or.inr (of_decide_eq_true (List.mem_filter.1 old).2)
      · obtain ⟨p, -, rfl⟩ := List.mem_map.1 arrived
        exact Or.inl rfl
    rw [movedFate, if_pos moving]
  have positions : (held.map (·.position)).Perm ((after {} ops).waiting ++ op.arriving) := by
    have arrived : new.map (·.position) = op.arriving := by
      rw [List.map_map]
      exact List.map_id _
    rw [List.map_append, arrived]
    exact (h.places .pending).append_right _
  have out := (positions.filter fun p => decide (moves op left ops.length p = place)).trans
    (settled.perform_moves fits ops.length place)
  rw [List.filter_map] at out
  rw [positionsAt_snoc]
  refine ((cut.symm.filter _).map _).trans ?_
  rw [List.filter_append, List.map_append, kept, moved]
  exact (h.staying place).append out

/-- Only calls that add a mapping give places to bytes. -/
theorem maps_perform_of_not_announces (m : SubflowMappings) {op : MappingOp}
    (h : op.announces = false) (p : Nat) : (m.perform op).mappings.maps p = m.maps p := by
  cases op with
  | insert ssn len dsn frame => cases h
  | setInfinite ssn dsn frame => cases h
  | place ssn len frame => rfl
  | takePending => rfl

theorem getElem?_snoc {call : Nat} {earlier op : MappingOp} (found : ops[call]? = some earlier) :
    (ops ++ [op])[call]? = some earlier :=
  (List.getElem?_append_left (List.getElem?_eq_some_iff.1 found).1).trans found

theorem Tracks.snoc (h : Tracks ops fate) (settled : (after {} ops).Settled) {op : MappingOp}
    (fits : op.fits = true) :
    Tracks (ops ++ [op])
      (movedFate fate op ((after {} ops).perform op).mappings ops.length) where
  places := h.places_snoc settled fits
  returned := by
    intro b mem call there
    have last : (ops ++ [op])[ops.length]? = some op := List.getElem?_concat_length
    rw [carried_snoc] at mem
    rcases List.mem_append.1 mem with old | new
    · have older := call_lt_of_mem_carried old
      by_cases pending : fate b = .pending
      · rw [movedFate, if_pos (Or.inr pending), moves_eq_returned_iff] at there
        obtain ⟨-, mapped, rfl⟩ := there
        refine Or.inr ⟨older, op, last, ?_⟩
        by_contra silent
        rw [maps_perform_of_not_announces _ (Bool.eq_false_iff.2 silent),
          settled.unmapped _ (h.position_mem_waiting old pending)] at mapped
        cases mapped
      · rw [movedFate_of_gone older pending] at there
        rcases h.returned b old call there with own | ⟨later, o, found, announces⟩
        · exact Or.inl own
        · exact Or.inr ⟨later, o, getElem?_snoc found, announces⟩
    · obtain ⟨p, -, rfl⟩ := List.mem_map.1 new
      rw [movedFate, if_pos (Or.inl rfl), moves_eq_returned_iff] at there
      exact Or.inl there.2.2.symm
  taken := by
    intro b mem call there
    have last : (ops ++ [op])[ops.length]? = some op := List.getElem?_concat_length
    rw [carried_snoc] at mem
    rcases List.mem_append.1 mem with old | new
    · have older := call_lt_of_mem_carried old
      by_cases pending : fate b = .pending
      · rw [movedFate, if_pos (Or.inr pending), moves_eq_taken_iff] at there
        obtain ⟨rfl, rfl⟩ := there
        exact ⟨older, last⟩
      · rw [movedFate_of_gone older pending] at there
        obtain ⟨later, found⟩ := h.taken b old call there
        exact ⟨later, getElem?_snoc found⟩
    · obtain ⟨p, arrives, rfl⟩ := List.mem_map.1 new
      rw [movedFate, if_pos (Or.inl rfl), moves_eq_taken_iff] at there
      obtain ⟨rfl, -⟩ := there
      exact absurd arrives List.not_mem_nil

/-- Some assignment of the bytes agrees with the places after any calls. -/
theorem exists_tracks (fits : ∀ op ∈ ops, op.fits = true) : ∃ fate, Tracks ops fate := by
  induction ops using List.reverseRecOn with
  | nil =>
      refine ⟨fun _ => .pending, ?_, ?_, ?_⟩
      · intro place
        cases place <;> exact List.Perm.refl _
      · exact fun b mem => absurd mem List.not_mem_nil
      · exact fun b mem => absurd mem List.not_mem_nil
  | append_singleton ops op ih =>
      have before : ∀ earlier ∈ ops, earlier.fits = true :=
        fun earlier mem => fits earlier (List.mem_append_left _ mem)
      obtain ⟨fate, tracks⟩ := ih before
      exact ⟨_, tracks.snoc (settled_empty.after before)
        (fits op (List.mem_append_right _ List.mem_cons_self))⟩

/-! ### Sums -/

theorem length_bytes (s : AttributedSpan) : s.bytes.length = s.len := by
  rw [AttributedSpan.bytes, List.length_map, List.length_range]

theorem pendingBytes_eq (m : SubflowMappings) : m.pendingBytes = m.waiting.length := by
  rw [waiting, length_flatMap_eq_totalOf]
  refine congrArg (totalOf · m.pending) (funext fun s => ?_)
  exact List.length_range'.symm

/-- No call loses or makes bytes. -/
theorem Settled.perform_size {m : SubflowMappings} (h : m.Settled) {op : MappingOp}
    (fits : op.fits = true) :
    m.pendingBytes + op.size = (m.perform op).size + (m.perform op).mappings.pendingBytes := by
  rw [pendingBytes_eq, pendingBytes_eq, Performed.size, ← MappingOp.length_arriving,
    ← List.length_append]
  by_cases takes : op = .takePending
  · subst takes
    rw [perform_takePending]
    have given := pendingBytes_eq m
    rw [pendingBytes] at given
    simp [MappingOp.arriving, given, waiting]
  · obtain ⟨placed, left⟩ := h.perform_positions fits takes
    have count := placed.length_eq
    rw [List.length_map, length_flatMap_eq_totalOf] at count
    simp only [length_bytes] at count
    rw [taken_perform m takes, left, count, totalOf_nil, Nat.add_zero]
    exact List.length_eq_length_filter_add _

theorem sizes_add_up (fits : ∀ op ∈ ops, op.fits = true) :
    totalOf (·.size) ops = totalOf (·.size) (outcomes {} ops) + (after {} ops).pendingBytes := by
  induction ops using List.reverseRecOn with
  | nil => rfl
  | append_singleton ops op ih =>
      have before : ∀ earlier ∈ ops, earlier.fits = true :=
        fun earlier mem => fits earlier (List.mem_append_left _ mem)
      have step := (settled_empty.after before).perform_size
        (fits op (List.mem_append_right _ List.mem_cons_self))
      have earlier := ih before
      rw [totalOf_append, outcomes_snoc, totalOf_append, after_snoc]
      simp only [totalOf_cons, totalOf_nil]
      omega

/-! ### Mapped bytes -/

/-- A byte keeps having a place. -/
theorem maps_perform {m : SubflowMappings} (wf : m.tree.WellFormed) {p : Nat}
    (mapped : m.maps p = true) (op : MappingOp) : (m.perform op).mappings.maps p = true := by
  rcases m.perform_cases op with ⟨-, same⟩ | ⟨-, m', grows, same⟩ | ⟨ssn, len, frame, rfl⟩ | rfl
  · rw [same]
    exact mapped
  · rw [same]
    exact grows.maps wf p mapped
  · exact mapped
  · exact mapped

/-- A mapping that is accepted gives its bytes a place. -/
theorem maps_of_covers {m : SubflowMappings} (wf : m.tree.WellFormed) {op : MappingOp} {p : Nat}
    (covers : op.covers p = true) : (m.perform op).mappings.maps p = true := by
  cases op with
  | insert ssn len dsn frame =>
      rw [MappingOp.covers] at covers
      cases accepted : Range.ofLength ssn len with
      | error e =>
          rw [accepted] at covers
          cases covers
      | ok range =>
          rw [accepted] at covers
          rw [perform_insert_of_ok accepted, maps_iff]
          exact Or.inl ⟨_, wf.mem_insert.2 (Or.inl rfl), covers⟩
  | setInfinite ssn dsn frame => cases covers
  | place ssn len frame => cases covers
  | takePending => cases covers

theorem maps_after_of_covers (fits : ∀ op ∈ ops, op.fits = true) {op : MappingOp} (mem : op ∈ ops)
    {p : Nat} (covers : op.covers p = true) : (after {} ops).maps p = true := by
  induction ops using List.reverseRecOn with
  | nil => exact absurd mem List.not_mem_nil
  | append_singleton ops last ih =>
      have before : ∀ earlier ∈ ops, earlier.fits = true :=
        fun earlier mem => fits earlier (List.mem_append_left _ mem)
      have wf := (settled_empty.after before).wellFormed
      rw [after_snoc]
      rcases List.mem_append.1 mem with earlier | own
      · exact maps_perform wf (ih before earlier) last
      · obtain rfl := List.mem_singleton.1 own
        exact maps_of_covers wf covers

/-- **No subflow byte is lost or placed twice.**  Whatever calls are made, as long as the bytes to be
placed end inside the sequence space: every carried byte is assigned to one place, and the places hold
the positions of the bytes assigned to them and no others; so the numbers of bytes add up.  No pending
byte lies in a mapping that was accepted, or at or past the start of the infinite mapping. -/
theorem bytes_accounted_for (fits : ∀ op ∈ ops, op.fits = true) :
    (carried ops).Nodup ∧ (∃ fate, Tracks ops fate) ∧
      totalOf (·.size) ops = totalOf (·.size) (outcomes {} ops) + (after {} ops).pendingBytes ∧
      ∀ p ∈ (after {} ops).waiting, (∀ op ∈ ops, op.covers p = false) ∧
        ∀ i, (after {} ops).infinite = some i → p < i.ssn.toNat := by
  refine ⟨nodup_carried ops, exists_tracks fits, sizes_add_up fits, ?_⟩
  intro p mem
  have unmapped := Bool.eq_false_iff.1 ((settled_empty.after fits).unmapped p mem)
  refine ⟨?_, ?_⟩
  · intro op called
    exact Bool.eq_false_iff.2 fun covers => unmapped (maps_after_of_covers fits called covers)
  · intro i there
    refine Nat.lt_of_not_le fun past => unmapped (maps_iff.2 (Or.inr ⟨i, there, past⟩))

/-- Bytes up to the end of the sequence space, mappings that overlap, one that is refused, and the
fallback: byte 20 is given up by call 7, byte `0xfffffffa` is pending at the end. -/
theorem bytes_accounted_for_overlapping :
    let ops : List MappingOp :=
      [.place 0xfffffff6 10 1, .place 5 16 2, .insert 10 5 100 3, .insert 0xffffffff 2 0 4,
        .insert 12 8 0xfffffffffffffffe 5, .place 8 10 6, .setInfinite 0xfffffffb 900 7,
        .takePending, .place 0xfffffffa 6 9]
    (∀ op ∈ ops, op.fits = true) ∧
      ((carried ops).Nodup ∧ (∃ fate, Tracks ops fate) ∧
        totalOf (·.size) ops = totalOf (·.size) (outcomes {} ops) + (after {} ops).pendingBytes ∧
        ∀ p ∈ (after {} ops).waiting, (∀ op ∈ ops, op.covers p = false) ∧
          ∀ i, (after {} ops).infinite = some i → p < i.ssn.toNat) ∧
      positionsAt ops (.returned 4) = [15, 16, 17, 18, 19] ∧
      20 ∈ positionsAt ops (.taken 7) ∧ positionsAt ops .pending = [0xfffffffa] := by
  intro ops
  have fits : ∀ op ∈ ops, op.fits = true := by decide
  exact ⟨fits, bytes_accounted_for fits, by decide +kernel, by decide +kernel, by decide +kernel⟩

end SubflowMappings

end TcpCapture
