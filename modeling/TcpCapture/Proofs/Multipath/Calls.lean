import TcpCapture.Proofs.Multipath.Placement

/-!
# Calls on the mappings of a subflow

Mappings, stretches of bytes and requests for the pending bytes come in any order.

## Main definitions

* `MappingOp` — the calls; `SubflowMappings.perform`, what one of them does, and `outcomes`, what some
  of them do in turn
* `SubflowMappings.Grows` — more has a place and the same bytes wait, as once a mapping is accepted
* `SubflowMappings.Settled` — no pending byte has a place

**One law for all calls but one.**  A call other than `takePending` sorts the bytes that wait and those
that arrive, by the mappings as they are after the call (`Settled.perform_placement`).  It makes no
difference whether it is the mapping that is new or the bytes.
-/

namespace TcpCapture

/-- A call on the mappings of one subflow direction. -/
inductive MappingOp where
  | insert (ssn : Seq) (len : Nat) (dsn : DataSeq) (frame : Nat)
  | setInfinite (ssn : Seq) (dsn : DataSeq) (frame : Nat)
  | place (ssn : Seq) (len frame : Nat)
  | takePending
deriving DecidableEq, Repr

namespace MappingOp

/-- The bytes to be placed end inside the sequence space. -/
def fits : MappingOp → Bool
  | place ssn len _ => ssn.toNat + len ≤ seqSpace
  | _ => true

/-- The positions of the bytes that the call asks to place. -/
def arriving : MappingOp → List Nat
  | place ssn len _ => List.range' ssn.toNat len
  | _ => []

/-- The call adds a mapping, if that is accepted. -/
def announces : MappingOp → Bool
  | insert .. | setInfinite .. => true
  | _ => false

/-- A mapping brings no bytes. -/
theorem arriving_of_announces {op : MappingOp} (h : op.announces = true) : op.arriving = [] := by
  cases op with
  | place ssn len frame => cases h
  | _ => rfl

end MappingOp

/-- What a call leaves and gives back. -/
structure Performed where
  mappings : SubflowMappings
  placed : List AttributedSpan := []
  taken : List PendingSpan := []

namespace SubflowMappings

/-- Carries out a call.  A mapping that is refused changes nothing. -/
def perform (m : SubflowMappings) : MappingOp → Performed
  | .insert ssn len dsn frame =>
    match m.insert? ssn len dsn frame with
    | .ok (left, spans) => { mappings := left, placed := spans }
    | .error _ => { mappings := m }
  | .setInfinite ssn dsn frame =>
    let (left, spans) := m.setInfinite ssn dsn frame
    { mappings := left, placed := spans }
  | .place ssn len frame =>
    let (left, spans) := m.place ssn len frame
    { mappings := left, placed := spans }
  | .takePending =>
    let (left, spans) := m.takePending
    { mappings := left, taken := spans }

/-- The mappings after some calls. -/
def after (m : SubflowMappings) (ops : List MappingOp) : SubflowMappings :=
  ops.foldl (fun m op => (m.perform op).mappings) m

/-- What some calls do in turn. -/
def outcomes (m : SubflowMappings) : List MappingOp → List Performed
  | [] => []
  | op :: rest => m.perform op :: (m.perform op).mappings.outcomes rest

variable {m : SubflowMappings} {op : MappingOp}

theorem after_snoc (m : SubflowMappings) (ops : List MappingOp) (op : MappingOp) :
    m.after (ops ++ [op]) = ((m.after ops).perform op).mappings := by
  rw [after, List.foldl_append]
  rfl

theorem outcomes_snoc (m : SubflowMappings) (ops : List MappingOp) (op : MappingOp) :
    m.outcomes (ops ++ [op]) = m.outcomes ops ++ [(m.after ops).perform op] := by
  induction ops generalizing m with
  | nil => rfl
  | cons first rest ih => exact congrArg _ (ih _)

theorem length_outcomes (m : SubflowMappings) (ops : List MappingOp) :
    (m.outcomes ops).length = ops.length := by
  induction ops generalizing m with
  | nil => rfl
  | cons first rest ih => exact congrArg (· + 1) (ih _)

/-! ### The cases of a call -/

/-- The mappings with one more, nothing placed yet. -/
def announce (m : SubflowMappings) (range : Range 32) (target : MappingTarget) : SubflowMappings :=
  { m with tree := m.tree.insert range target }

/-- The second mappings have the same pending bytes and put somewhere what the first ones do. -/
structure Grows (m m' : SubflowMappings) : Prop where
  pending : m'.pending = m.pending
  wellFormed : m.tree.WellFormed → m'.tree.WellFormed
  maps : m.tree.WellFormed → ∀ p, m.maps p = true → m'.maps p = true

theorem grows_announce (m : SubflowMappings) (range : Range 32) (target : MappingTarget) :
    m.Grows (m.announce range target) where
  pending := rfl
  wellFormed wf := wf.insert range target
  maps wf p mapped := by
    rw [maps_iff] at mapped ⊢
    refine mapped.imp ?_ (fun past => past)
    rintro ⟨x, mem, held⟩
    exact ⟨x, wf.mem_insert.2 (Or.inr mem), held⟩

theorem grows_infinite (first : m.infinite = none) (i : InfiniteMapping) :
    m.Grows { m with infinite := some i } where
  pending := rfl
  wellFormed wf := wf
  maps _ p mapped := by
    rw [maps_iff] at mapped ⊢
    refine mapped.imp_right ?_
    rintro ⟨i, there, -⟩
    rw [first] at there
    cases there

theorem perform_insert_of_ok {ssn : Seq} {len : Nat} {range : Range 32}
    (accepted : Range.ofLength ssn len = .ok range) (dsn : DataSeq) (frame : Nat) :
    m.perform (.insert ssn len dsn frame) =
      { mappings := (m.announce range ⟨dsn, frame⟩).resolvePending.1
        placed := (m.announce range ⟨dsn, frame⟩).resolvePending.2 } := by
  have ok : m.insert? ssn len dsn frame = .ok (m.announce range ⟨dsn, frame⟩).resolvePending := by
    rw [insert?, accepted]
    rfl
  unfold perform
  dsimp only
  rw [ok]

theorem perform_insert_of_error {ssn : Seq} {len : Nat} {e : CaptureError}
    (refused : Range.ofLength ssn len = .error e) (dsn : DataSeq) (frame : Nat) :
    m.perform (.insert ssn len dsn frame) = { mappings := m } := by
  have error : m.insert? ssn len dsn frame = .error e := by
    rw [insert?, refused]
    rfl
  unfold perform
  dsimp only
  rw [error]

theorem perform_takePending (m : SubflowMappings) :
    m.perform .takePending = { mappings := { m with pending := [] }, taken := m.pending } := rfl

/-- **What a call can be**: a mapping that is refused, one that is added and takes its bytes out of the
pending ones, new bytes, or a request for the pending ones. -/
theorem perform_cases (m : SubflowMappings) (op : MappingOp) :
    (op.announces = true ∧ m.perform op = { mappings := m }) ∨
      (op.announces = true ∧ ∃ m', m.Grows m' ∧
        m.perform op = { mappings := m'.resolvePending.1, placed := m'.resolvePending.2 }) ∨
      (∃ ssn len frame, op = .place ssn len frame) ∨ op = .takePending := by
  cases op with
  | insert ssn len dsn frame =>
      cases answer : Range.ofLength ssn len with
      | ok range =>
          exact Or.inr (Or.inl ⟨rfl, _, m.grows_announce range ⟨dsn, frame⟩,
            perform_insert_of_ok answer dsn frame⟩)
      | error e => exact Or.inl ⟨rfl, perform_insert_of_error answer dsn frame⟩
  | setInfinite ssn dsn frame =>
      unfold perform setInfinite
      cases there : m.infinite with
      | none => exact Or.inr (Or.inl ⟨rfl, _, grows_infinite there ⟨ssn, dsn, frame⟩, rfl⟩)
      | some i => exact Or.inl ⟨rfl, rfl⟩
  | place ssn len frame => exact Or.inr (Or.inr (Or.inl ⟨ssn, len, frame, rfl⟩))
  | takePending => exact Or.inr (Or.inr (Or.inr rfl))

/-- Only `takePending` gives up bytes. -/
theorem taken_perform (m : SubflowMappings) (keeps : op ≠ .takePending) :
    (m.perform op).taken = [] := by
  rcases m.perform_cases op with ⟨-, same⟩ | ⟨-, m', -, same⟩ | ⟨ssn, len, frame, rfl⟩ | rfl
  · rw [same]
  · rw [same]
  · rfl
  · exact absurd rfl keeps

/-! ### Settled mappings -/

/-- The mappings can be searched, and no pending byte has a place. -/
structure Settled (m : SubflowMappings) : Prop where
  wellFormed : m.tree.WellFormed
  fits : m.Fits
  unmapped : ∀ p ∈ m.waiting, m.maps p = false

theorem settled_empty : ({} : SubflowMappings).Settled where
  wellFormed := IntervalTree.wellFormed_nil
  fits := fun _ mem => absurd mem List.not_mem_nil
  unmapped := fun _ mem => absurd mem List.not_mem_nil

theorem Fits.lt_of_mem_waiting (fits : m.Fits) {p : Nat} (mem : p ∈ m.waiting) : p < seqSpace := by
  obtain ⟨s, hs, hp⟩ := List.mem_flatMap.1 mem
  have := fits s hs
  have := List.mem_range'_1.1 hp
  omega

variable {β : Type} {view : PlacedByte → β} {put : Nat → Option β}

/-- A byte that no mapping holds is put nowhere. -/
theorem Shows.eq_none (shows : m.Shows view put) (wf : m.tree.WellFormed) {p : Nat}
    (inSpace : p < seqSpace) (unmapped : m.maps p = false) : put p = none := by
  have held : (Range.point (BitVec.ofNat 32 p)).holds p = true := by
    rw [Range.holds_iff]
    show (BitVec.ofNat 32 p).toNat ≤ p ∧ p ≤ (BitVec.ofNat 32 p).toNat
    rw [BitVec.toNat_ofNat, Nat.mod_eq_of_lt inSpace]
    exact ⟨Nat.le_refl p, Nat.le_refl p⟩
  have nowhere := isSome_locate? wf held
  rw [unmapped, Option.isSome_eq_false_iff, Option.isNone_iff_eq_none] at nowhere
  rw [← shows _ p held, nowhere]
  rfl

theorem Settled.eq_none (h : m.Settled) (shows : m.Shows view put) :
    ∀ p ∈ m.waiting, put p = none :=
  fun p mem => shows.eq_none h.wellFormed (h.fits.lt_of_mem_waiting mem) (h.unmapped p mem)

theorem wellFormed_perform (h : m.tree.WellFormed) (op : MappingOp) :
    (m.perform op).mappings.tree.WellFormed := by
  rcases m.perform_cases op with ⟨-, same⟩ | ⟨-, m', grows, same⟩ | ⟨ssn, len, frame, rfl⟩ | rfl
  · rw [same]
    exact h
  · rw [same]
    exact grows.wellFormed h
  · exact h
  · exact h

theorem wellFormed_after (wf : m.tree.WellFormed) (ops : List MappingOp) :
    (m.after ops).tree.WellFormed := by
  induction ops generalizing m with
  | nil => exact wf
  | cons op rest ih => exact ih (wellFormed_perform wf op)

theorem Grows.fits {m' : SubflowMappings} (grows : m.Grows m') (fits : m.Fits) : m'.Fits := by
  rw [Fits, grows.pending]
  exact fits

/-- **What a call does to the bytes**: those that waited and those that arrive are sorted by the
mappings after the call. -/
theorem Settled.perform_placement (h : m.Settled) (fits : op.fits = true)
    (keeps : op ≠ .takePending) (shows : (m.perform op).mappings.Shows view put) :
    Placement view put (m.waiting ++ op.arriving) (m.perform op).placed
      (m.perform op).mappings.waiting := by
  rcases m.perform_cases op with ⟨announces, same⟩ | ⟨announces, m', grows, same⟩ |
    ⟨ssn, len, frame, rfl⟩ | rfl
  · rw [same] at shows ⊢
    rw [MappingOp.arriving_of_announces announces, List.append_nil]
    exact Placement.of_none (h.eq_none shows)
  · rw [same] at shows ⊢
    have waiting : m.waiting = m'.waiting := by
      rw [SubflowMappings.waiting, SubflowMappings.waiting, grows.pending]
    rw [MappingOp.arriving_of_announces announces, List.append_nil, waiting]
    exact resolvePending_placement (grows.fits h.fits) shows
  · have same : m.Shows view put := shows
    exact place_placement same (of_decide_eq_true fits) frame (h.eq_none same)
  · exact absurd rfl keeps

/-- What a call does to the bytes, told by positions: it returns those that have a place now. -/
theorem Settled.perform_positions (h : m.Settled) (fits : op.fits = true)
    (keeps : op ≠ .takePending) :
    (((m.perform op).placed.flatMap AttributedSpan.bytes).map (·.position)).Perm
        ((m.waiting ++ op.arriving).filter (m.perform op).mappings.maps) ∧
      (m.perform op).mappings.waiting =
        (m.waiting ++ op.arriving).filter fun p => !(m.perform op).mappings.maps p := by
  have sorted := h.perform_placement fits keeps
    (shows_position (wellFormed_perform h.wellFormed op))
  constructor
  · refine sorted.placed.trans (List.Perm.of_eq ?_)
    rw [← List.filterMap_eq_filter]
    rfl
  · refine sorted.left_eq.trans (List.filter_congr fun p _ => ?_)
    cases (m.perform op).mappings.maps p <;> rfl

theorem Settled.fits_perform (h : m.Settled) (fits : op.fits = true) :
    (m.perform op).mappings.Fits := by
  rcases m.perform_cases op with ⟨-, same⟩ | ⟨-, m', grows, same⟩ | ⟨ssn, len, frame, rfl⟩ | rfl
  · rw [same]
    exact h.fits
  · rw [same]
    exact (grows.fits h.fits).resolvePending (shows_position (grows.wellFormed h.wellFormed))
  · exact h.fits.place (shows_position h.wellFormed) (of_decide_eq_true fits) frame
  · exact fun _ mem => absurd mem List.not_mem_nil

/-- Calls leave no pending byte that has a place. -/
theorem Settled.perform (h : m.Settled) (fits : op.fits = true) :
    (m.perform op).mappings.Settled where
  wellFormed := wellFormed_perform h.wellFormed op
  fits := h.fits_perform fits
  unmapped := by
    intro p mem
    by_cases keeps : op = .takePending
    · subst keeps
      exact absurd mem List.not_mem_nil
    · rw [(h.perform_positions fits keeps).2] at mem
      simpa using (List.mem_filter.1 mem).2

theorem Settled.after (h : m.Settled) {ops : List MappingOp} (fits : ∀ op ∈ ops, op.fits = true) :
    (m.after ops).Settled := by
  induction ops generalizing m with
  | nil => exact h
  | cons op rest ih =>
      exact ih (h.perform (fits op List.mem_cons_self)) fun later mem =>
        fits later (List.mem_cons_of_mem op mem)

end SubflowMappings

end TcpCapture
