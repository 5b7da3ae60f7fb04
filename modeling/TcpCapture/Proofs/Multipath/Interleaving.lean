import TcpCapture.Proofs.Multipath.Calls

/-!
# Mappings before or after the data

Where no two mappings share a byte, the order in which mappings and bytes come does not matter: in the
end every byte inside a mapping has been placed by it, once, and every other byte is pending.

## Main definitions

* `Announcement`, `Piece` — a mapping and a stretch of bytes, as they are announced and captured
* `placeOf?` — where some mappings put a byte
* `MappingOp.Plain` — the calls that announce a mapping or bring bytes

**A normal form.**  No two orders are compared with each other.  What a run returns and leaves pending
is given by a formula in which the order of its calls does not occur (`sorted_outcomes`).
-/

namespace TcpCapture

/-- A mapping of `len` bytes from `ssn` on. -/
structure Announcement where
  ssn : Seq
  len : Nat
  dsn : DataSeq
  frame : Nat
deriving DecidableEq, Repr

/-- `len` bytes from `ssn` on, captured in a frame. -/
structure Piece where
  ssn : Seq
  len : Nat
  frame : Nat
deriving DecidableEq, Repr

namespace Announcement

/-- The call that announces the mapping. -/
def op (a : Announcement) : MappingOp := .insert a.ssn a.len a.dsn a.frame

/-- The mapping is not empty and ends inside the sequence space. -/
def Accepted (a : Announcement) : Prop := 0 < a.len ∧ a.ssn.toNat + a.len ≤ seqSpace

instance (a : Announcement) : Decidable a.Accepted := inferInstanceAs (Decidable (_ ∧ _))

/-- The mapping has the byte. -/
def holds (a : Announcement) (p : Nat) : Bool :=
  decide (a.ssn.toNat ≤ p) && decide (p < a.ssn.toNat + a.len)

/-- One of the mappings ends before the other begins. -/
def Apart (a b : Announcement) : Prop :=
  a.ssn.toNat + a.len ≤ b.ssn.toNat ∨ b.ssn.toNat + b.len ≤ a.ssn.toNat

instance : DecidableRel Apart := fun _ _ => inferInstanceAs (Decidable (_ ∨ _))

/-- Where the mapping puts a byte. -/
def placed (a : Announcement) (p : Nat) : PlacedByte :=
  ⟨p, advance a.dsn (p - a.ssn.toNat), a.frame⟩

theorem holds_iff {a : Announcement} {p : Nat} :
    a.holds p = true ↔ a.ssn.toNat ≤ p ∧ p < a.ssn.toNat + a.len := by
  rw [holds, Bool.and_eq_true, decide_eq_true_eq, decide_eq_true_eq]

theorem Apart.symm {a b : Announcement} (h : a.Apart b) : b.Apart a := Or.symm h

/-- Mappings that are apart share no byte. -/
theorem Apart.not_holds {a b : Announcement} (h : a.Apart b) {p : Nat} (held : a.holds p = true) :
    ¬ b.holds p = true := by
  rw [holds_iff] at held ⊢
  unfold Apart at h
  omega

/-- Accepted are the mappings that have a range. -/
theorem accepted_iff {a : Announcement} :
    a.Accepted ↔ ∃ range, Range.ofLength a.ssn a.len = .ok range := by
  constructor
  · rintro ⟨pos, fits⟩
    refine Range.exists_ofLength pos ?_
    show a.ssn.toNat + (a.len - 1) ≤ seqSpace - 1
    omega
  · rintro ⟨range, h⟩
    obtain ⟨pos, -, high⟩ := Range.ofLength_eq_ok h
    have last : range.high.toNat + 1 ≤ seqSpace := range.high.isLt
    exact ⟨pos, by omega⟩

theorem holds_range {a : Announcement} {range : Range 32}
    (h : Range.ofLength a.ssn a.len = .ok range) (p : Nat) : range.holds p = a.holds p := by
  obtain ⟨-, low, high⟩ := Range.ofLength_eq_ok h
  rw [Bool.eq_iff_iff, Range.holds_iff, holds_iff, low]
  omega

end Announcement

namespace Piece

/-- The call that brings the bytes. -/
def op (x : Piece) : MappingOp := .place x.ssn x.len x.frame

/-- The positions of the bytes. -/
def positions (x : Piece) : List Nat := List.range' x.ssn.toNat x.len

end Piece

/-! ### Where mappings put a byte -/

/-- Where some mappings put a byte, if one of them has it. -/
def placeOf? (mappings : List Announcement) (p : Nat) : Option PlacedByte :=
  (mappings.find? (·.holds p)).map (·.placed p)

section PlaceOf

variable {mappings mappings' : List Announcement} {p : Nat}

theorem placeOf?_eq_none (h : ∀ a ∈ mappings, ¬ a.holds p = true) : placeOf? mappings p = none := by
  rw [placeOf?, List.find?_eq_none.2 h]
  rfl

theorem placeOf?_cons_of_holds {a : Announcement} (held : a.holds p = true)
    (rest : List Announcement) : placeOf? (a :: rest) p = some (a.placed p) := by
  rw [placeOf?, List.find?_cons, held]
  rfl

theorem placeOf?_cons_of_not {a : Announcement} (other : ¬ a.holds p = true)
    (rest : List Announcement) : placeOf? (a :: rest) p = placeOf? rest p := by
  rw [placeOf?, List.find?_cons, Bool.eq_false_iff.2 other]
  rfl

/-- Among mappings that are apart, the one that has the byte decides. -/
theorem placeOf?_eq_some (apart : mappings.Pairwise Announcement.Apart) {a : Announcement}
    (mem : a ∈ mappings) (held : a.holds p = true) : placeOf? mappings p = some (a.placed p) := by
  induction mappings with
  | nil => exact absurd mem List.not_mem_nil
  | cons b rest ih =>
      obtain ⟨others, apart⟩ := List.pairwise_cons.1 apart
      rcases List.mem_cons.1 mem with rfl | mem
      · exact placeOf?_cons_of_holds held rest
      · rw [placeOf?_cons_of_not ((others a mem).symm.not_holds held)]
        exact ih apart mem

theorem placeOf?_perm (apart : mappings.Pairwise Announcement.Apart)
    (perm : mappings.Perm mappings') (p : Nat) : placeOf? mappings p = placeOf? mappings' p := by
  have apart' := (perm.pairwise_iff fun h => h.symm).1 apart
  by_cases h : ∃ a ∈ mappings, a.holds p = true
  · obtain ⟨a, mem, held⟩ := h
    rw [placeOf?_eq_some apart mem held, placeOf?_eq_some apart' (perm.mem_iff.1 mem) held]
  · have nowhere : ∀ a ∈ mappings, ¬ a.holds p = true := fun a mem held => h ⟨a, mem, held⟩
    rw [placeOf?_eq_none nowhere, placeOf?_eq_none fun a mem => nowhere a (perm.mem_iff.2 mem)]

/-- A mapping that comes later moves no byte. -/
theorem placeOf?_append_of_some {b : PlacedByte} (h : placeOf? mappings p = some b)
    (later : List Announcement) : placeOf? (mappings ++ later) p = some b := by
  obtain ⟨a, found, rfl⟩ := Option.map_eq_some_iff.1 h
  rw [placeOf?, List.find?_append, found]
  rfl

end PlaceOf

/-! ### Calls -/

namespace MappingOp

/-- The mapping a call announces. -/
def announcement? : MappingOp → Option Announcement
  | insert ssn len dsn frame => some ⟨ssn, len, dsn, frame⟩
  | _ => none

/-- The infinite mapping that the call asks for. -/
def infinite? : MappingOp → Option InfiniteMapping
  | setInfinite ssn dsn frame => some ⟨ssn, dsn, frame⟩
  | _ => none

/-- The call announces a mapping that is accepted, or brings bytes that fit. -/
inductive Plain : MappingOp → Prop
  | mapping {a : Announcement} (accepted : a.Accepted) : Plain a.op
  | bytes {x : Piece} (fits : x.ssn.toNat + x.len ≤ seqSpace) : Plain x.op

theorem Plain.fits {op : MappingOp} (h : op.Plain) : op.fits = true := by
  cases h with
  | mapping => rfl
  | bytes fits => exact decide_eq_true fits

theorem Plain.ne_takePending {op : MappingOp} (h : op.Plain) : op ≠ .takePending := by
  cases h <;> exact fun eq => nomatch eq

end MappingOp

/-- The mappings that some calls announce. -/
def announced (ops : List MappingOp) : List Announcement := ops.filterMap MappingOp.announcement?

/-- What a later round sorts: the bytes an earlier one left over, and new ones. -/
theorem Placement.more {β : Type} {view : PlacedByte → β} {put put' : Nat → Option β}
    {positions new left left' : List Nat} {spans spans' : List AttributedSpan}
    (h : Placement view put positions spans left)
    (h' : Placement view put' (left ++ new) spans' left')
    (stays : ∀ p b, put p = some b → put' p = some b) :
    Placement view put' (positions ++ new) (spans ++ spans') left' := by
  have same : ∀ p, (put p).or (put' p) = put' p := by
    intro p
    cases there : put p with
    | none => rfl
    | some b => exact (stays p b there).symm
  have olds : (positions.filterMap put ++ left.filterMap put').Perm (positions.filterMap put') := by
    have both := filterMap_or_perm put put' positions
    simp only [same] at both
    rwa [h.left_eq]
  constructor
  · rw [List.flatMap_append, List.map_append, List.filterMap_append]
    refine (h.placed.append h'.placed).trans ?_
    rw [List.filterMap_append, ← List.append_assoc]
    exact olds.append_right _
  · rw [h'.left_eq, List.filter_append, List.filter_append, h.left_eq, List.filter_filter]
    congr 1
    refine List.filter_congr fun p _ => ?_
    rw [← same p, Option.isNone_or]
    cases put p <;> simp

namespace SubflowMappings

variable {m : SubflowMappings} {ops : List MappingOp}

theorem announced_snoc (ops : List MappingOp) (op : MappingOp) :
    announced (ops ++ [op]) = announced ops ++ op.announcement?.toList := by
  rw [announced, List.filterMap_append]
  cases h : op.announcement? <;> simp [announced, h]

/-- A call adds the mapping it announces, if that is accepted, and no other. -/
theorem mem_tree_perform (wf : m.tree.WellFormed) (op : MappingOp) (x : Range 32 × MappingTarget) :
    x ∈ (m.perform op).mappings.tree.toList ↔ x ∈ m.tree.toList ∨
      ∃ a, op.announcement? = some a ∧ Range.ofLength a.ssn a.len = .ok x.1 ∧
        x.2 = ⟨a.dsn, a.frame⟩ := by
  have none (other : op.announcement? = none)
      (same : (m.perform op).mappings.tree = m.tree) :
      x ∈ (m.perform op).mappings.tree.toList ↔ x ∈ m.tree.toList ∨
        ∃ a, op.announcement? = some a ∧ Range.ofLength a.ssn a.len = .ok x.1 ∧
          x.2 = ⟨a.dsn, a.frame⟩ := by
    rw [same, other]
    exact (or_iff_left (by rintro ⟨a, there, -⟩; cases there)).symm
  cases op with
  | insert ssn len dsn frame =>
      cases answer : Range.ofLength ssn len with
      | ok range =>
          rw [perform_insert_of_ok answer]
          show x ∈ (m.tree.insert range ⟨dsn, frame⟩).toList ↔ _
          rw [wf.mem_insert, or_comm]
          refine or_congr_right ⟨?_, ?_⟩
          · rintro rfl
            exact ⟨_, rfl, answer, rfl⟩
          · rintro ⟨a, own, accepted, target⟩
            obtain rfl := Option.some.inj own
            rw [answer] at accepted
            exact Prod.ext (Except.ok.inj accepted).symm target
      | error e =>
          rw [perform_insert_of_error answer]
          refine (or_iff_left ?_).symm
          rintro ⟨a, own, accepted, -⟩
          obtain rfl := Option.some.inj own
          rw [answer] at accepted
          cases accepted
  | setInfinite ssn dsn frame =>
      refine none rfl ?_
      unfold SubflowMappings.perform setInfinite
      cases m.infinite <;> rfl
  | place ssn len frame => exact none rfl rfl
  | takePending => exact none rfl rfl

/-- **The mappings of a run** are those announced by it and accepted. -/
theorem mem_tree_after (ops : List MappingOp) (x : Range 32 × MappingTarget) :
    x ∈ (after {} ops).tree.toList ↔
      ∃ a ∈ announced ops, Range.ofLength a.ssn a.len = .ok x.1 ∧ x.2 = ⟨a.dsn, a.frame⟩ := by
  induction ops using List.reverseRecOn with
  | nil =>
      refine ⟨fun mem => absurd mem List.not_mem_nil, ?_⟩
      rintro ⟨a, mem, -⟩
      exact absurd mem List.not_mem_nil
  | append_singleton ops op ih =>
      rw [after_snoc, announced_snoc, mem_tree_perform (wellFormed_after IntervalTree.wellFormed_nil ops),
        ih]
      simp only [List.mem_append, Option.mem_toList, or_and_right, exists_or]

/-- **The infinite mapping of a run** is the first one that was asked for. -/
theorem infinite_after (ops : List MappingOp) :
    (after {} ops).infinite = ops.findSome? MappingOp.infinite? := by
  induction ops using List.reverseRecOn with
  | nil => rfl
  | append_singleton ops op ih =>
      rw [after_snoc, List.findSome?_append, ← ih]
      cases op with
      | insert ssn len dsn frame =>
          rw [show [MappingOp.insert ssn len dsn frame].findSome? MappingOp.infinite? = none from rfl,
            Option.or_none]
          cases answer : Range.ofLength ssn len with
          | ok range => rw [perform_insert_of_ok answer]; rfl
          | error e => rw [perform_insert_of_error answer]
      | setInfinite ssn dsn frame =>
          unfold SubflowMappings.perform setInfinite
          cases first : (after {} ops).infinite with
          | none => rfl
          | some i => exact first
      | place ssn len frame => exact (Option.or_none ..).symm
      | takePending => exact (Option.or_none ..).symm

/-- The tree keeps just the mappings announced, as far as they are accepted. -/
structure Keeps (m : SubflowMappings) (mappings : List Announcement) : Prop where
  wellFormed : m.tree.WellFormed
  mem_iff : ∀ x, x ∈ m.tree.toList ↔
    ∃ a ∈ mappings, Range.ofLength a.ssn a.len = .ok x.1 ∧ x.2 = ⟨a.dsn, a.frame⟩

theorem keeps_after (ops : List MappingOp) : (after {} ops).Keeps (announced ops) where
  wellFormed := wellFormed_after IntervalTree.wellFormed_nil ops
  mem_iff := mem_tree_after ops

variable {mappings : List Announcement} {query : Range 32} {p : Nat}

/-- A mapping in the tree was announced, and does what the announcement says. -/
theorem Keeps.exists_announcement (h : m.Keeps mappings) {x : Range 32 × MappingTarget}
    (mem : x ∈ m.tree.toList) : ∃ a ∈ mappings, a.Accepted ∧ a.ssn = x.1.low ∧
      (∀ p, a.holds p = x.1.holds p) ∧ ∀ p, a.placed p = MappingTarget.placed x p := by
  obtain ⟨a, listed, range, target⟩ := (h.mem_iff x).1 mem
  obtain ⟨-, low, -⟩ := Range.ofLength_eq_ok range
  refine ⟨a, listed, Announcement.accepted_iff.2 ⟨_, range⟩, low.symm,
    fun p => (Announcement.holds_range range p).symm, fun p => ?_⟩
  rw [Announcement.placed, MappingTarget.placed, target, low]

/-- A search for a byte meets every accepted mapping that has it. -/
theorem Keeps.exists_mem_findAll (h : m.Keeps mappings) (inside : query.holds p = true)
    {a : Announcement} (mem : a ∈ mappings) (accepted : a.Accepted) (own : a.holds p = true) :
    ∃ range, Range.ofLength a.ssn a.len = .ok range ∧ range.holds p = true ∧
      (range, ⟨a.dsn, a.frame⟩) ∈ m.tree.findAll query := by
  obtain ⟨range, hrange⟩ := Announcement.accepted_iff.1 accepted
  rw [← Announcement.holds_range hrange] at own
  have inTree := (h.mem_iff (range, ⟨a.dsn, a.frame⟩)).2 ⟨a, mem, hrange, rfl⟩
  have reached : range.overlaps query = true := by
    rw [Range.holds_iff] at inside own
    rw [Range.overlaps_iff, BitVec.le_def, BitVec.le_def]
    omega
  exact ⟨range, hrange, own, h.wellFormed.mem_findAll.2 ⟨inTree, reached⟩⟩

/-- The tree keeps the mappings announced, and there is no infinite one. -/
structure Holds (m : SubflowMappings) (mappings : List Announcement) : Prop
    extends m.Keeps mappings where
  finite : m.infinite = none

/-- **What disjoint mappings determine**: where each byte goes. -/
theorem Holds.shows (h : m.Holds mappings) (apart : mappings.Pairwise Announcement.Apart)
    (accepted : ∀ a ∈ mappings, a.Accepted) : m.Shows (fun b => b) (placeOf? mappings) := by
  intro query p held
  rw [Option.map_id', locate?, h.finite, Option.bind_none, Option.or_none, putAlong]
  cases found : owner? (m.tree.findAll query) p with
  | some x =>
      obtain ⟨met, own⟩ := owner?_eq_some found
      obtain ⟨a, mem, -, -, holds, placed⟩ :=
        h.exists_announcement (h.wellFormed.mem_findAll.1 met).1
      rw [placeOf?_eq_some apart mem ((holds p).trans own), placed]
      rfl
  | none =>
      refine (placeOf?_eq_none fun a mem own => ?_).symm
      obtain ⟨range, -, reached, met⟩ := h.exists_mem_findAll held mem (accepted a mem) own
      exact List.find?_eq_none.1 found _ met reached

theorem accepted_of_mem_announced (plain : ∀ op ∈ ops, op.Plain) :
    ∀ a ∈ announced ops, a.Accepted := by
  intro a mem
  obtain ⟨op, called, found⟩ := List.mem_filterMap.1 mem
  cases plain op called with
  | mapping accepted => exact Option.some.inj found ▸ accepted
  | bytes fits => cases found

theorem holds_after (plain : ∀ op ∈ ops, op.Plain) : (after {} ops).Holds (announced ops) where
  toKeeps := keeps_after ops
  finite := by
    rw [infinite_after, List.findSome?_eq_none_iff]
    intro op mem
    cases plain op mem with
    | mapping accepted => rfl
    | bytes fits => rfl

/-- **The normal form of a run**: what all its calls return and leave pending are the bytes they
bring, sorted by all the mappings they announce. -/
theorem sorted_outcomes (plain : ∀ op ∈ ops, op.Plain)
    (apart : (announced ops).Pairwise Announcement.Apart) :
    Placement (fun b => b) (placeOf? (announced ops)) (ops.flatMap MappingOp.arriving)
      ((outcomes {} ops).flatMap (·.placed)) (after {} ops).waiting := by
  induction ops using List.reverseRecOn with
  | nil => exact Placement.of_none fun p mem => absurd mem List.not_mem_nil
  | append_singleton ops op ih =>
      have before : ∀ earlier ∈ ops, earlier.Plain :=
        fun earlier mem => plain earlier (List.mem_append_left _ mem)
      have last := plain op (List.mem_append_right _ List.mem_cons_self)
      have shows := (holds_after plain).shows apart (accepted_of_mem_announced plain)
      rw [announced_snoc] at apart shows ⊢
      rw [after_snoc] at shows ⊢
      rw [outcomes_snoc, List.flatMap_append, List.flatMap_append, List.flatMap_singleton,
        List.flatMap_singleton]
      have settled : (after {} ops).Settled :=
        settled_empty.after fun earlier mem => (before earlier mem).fits
      have step := settled.perform_placement last.fits last.ne_takePending shows
      exact (ih before (List.pairwise_append.1 apart).1).more step
        fun p b there => placeOf?_append_of_some there _

/-- **Mappings may come before or after the data.**  However the announcements of disjoint mappings
and the arrivals of some bytes are interleaved: each byte inside a mapping is returned once, where that
mapping puts it, and each other byte is pending in the end. -/
theorem outcome_of_interleaving {mappings : List Announcement} {pieces : List Piece}
    (accepted : ∀ a ∈ mappings, a.Accepted) (apart : mappings.Pairwise Announcement.Apart)
    (fits : ∀ x ∈ pieces, x.ssn.toNat + x.len ≤ seqSpace)
    (interleaved : ops.Perm (mappings.map (·.op) ++ pieces.map (·.op))) :
    (((outcomes {} ops).flatMap (·.placed)).flatMap AttributedSpan.bytes).Perm
        ((pieces.flatMap (·.positions)).filterMap (placeOf? mappings)) ∧
      (after {} ops).waiting.Perm
        ((pieces.flatMap (·.positions)).filter fun p => !mappings.any (·.holds p)) := by
  have plain : ∀ op ∈ ops, op.Plain := by
    intro op mem
    rcases List.mem_append.1 (interleaved.mem_iff.1 mem) with mapping | bytes
    · obtain ⟨a, ha, rfl⟩ := List.mem_map.1 mapping
      exact .mapping (accepted a ha)
    · obtain ⟨x, hx, rfl⟩ := List.mem_map.1 bytes
      exact .bytes (fits x hx)
  have same : mappings.Perm (announced ops) := by
    have all := interleaved.symm.filterMap MappingOp.announcement?
    have own : mappings.filterMap (MappingOp.announcement? ∘ (·.op)) = mappings :=
      List.filterMap_some
    have others : pieces.filterMap (MappingOp.announcement? ∘ (·.op)) = [] :=
      List.filterMap_eq_nil_iff.2 fun _ _ => rfl
    rwa [List.filterMap_append, List.filterMap_map, List.filterMap_map, own, others,
      List.append_nil] at all
  have arrived : (ops.flatMap MappingOp.arriving).Perm (pieces.flatMap (·.positions)) := by
    have all := interleaved.flatMap_right MappingOp.arriving
    have nowhere : mappings.flatMap (MappingOp.arriving ·.op) = [] :=
      List.flatMap_eq_nil_iff.2 fun _ _ => rfl
    rwa [List.flatMap_append, List.flatMap_map, List.flatMap_map, nowhere, List.nil_append] at all
  have apart' := (same.pairwise_iff fun h => h.symm).1 apart
  obtain ⟨placed, left⟩ := sorted_outcomes plain apart'
  rw [List.map_id'] at placed
  rw [← funext (placeOf?_perm apart same)] at placed left
  refine ⟨placed.trans (arrived.filterMap _), ?_⟩
  rw [left]
  refine (arrived.filter _).trans (List.Perm.of_eq (List.filter_congr fun p _ => ?_))
  rw [placeOf?, Option.isNone_map, ← Option.not_isSome, List.isSome_find?]

/-- A mapping that wraps the data sequence space, one up to the end of the subflow's, and one between
them; each comes after some of its bytes and before others. -/
theorem outcome_of_interleaving_wrapping :
    let mappings : List Announcement :=
      [⟨1, 4, 0xfffffffffffffffe, 10⟩, ⟨0xfffffff0, 16, 500, 11⟩, ⟨5, 3, 100, 12⟩]
    let pieces : List Piece := [⟨0, 10, 1⟩, ⟨3, 4, 2⟩, ⟨0xffffffee, 18, 3⟩]
    let ops : List MappingOp :=
      [.insert 5 3 100 12, .place 0 10 1, .place 0xffffffee 18 3,
        .insert 1 4 0xfffffffffffffffe 10, .place 3 4 2, .insert 0xfffffff0 16 500 11]
    ((∀ a ∈ mappings, a.Accepted) ∧ mappings.Pairwise Announcement.Apart ∧
        (∀ x ∈ pieces, x.ssn.toNat + x.len ≤ seqSpace) ∧
        ops.Perm (mappings.map (·.op) ++ pieces.map (·.op))) ∧
      (((outcomes {} ops).flatMap (·.placed)).flatMap AttributedSpan.bytes).Perm
        ((pieces.flatMap (·.positions)).filterMap (placeOf? mappings)) ∧
      placeOf? mappings 4 = some ⟨4, 1, 10⟩ ∧
      (after {} ops).waiting.Perm [0, 8, 9, 0xffffffee, 0xffffffef] := by
  intro mappings pieces ops
  have accepted : ∀ a ∈ mappings, a.Accepted := by decide
  have apart : mappings.Pairwise Announcement.Apart := by decide
  have fits : ∀ x ∈ pieces, x.ssn.toNat + x.len ≤ seqSpace := by decide
  have interleaved : ops.Perm (mappings.map (·.op) ++ pieces.map (·.op)) := by decide
  obtain ⟨placed, left⟩ := outcome_of_interleaving accepted apart fits interleaved
  have uncovered : ((pieces.flatMap (·.positions)).filter fun p => !mappings.any (·.holds p)) =
      [0, 8, 9, 0xffffffee, 0xffffffef] := by decide +kernel
  rw [uncovered] at left
  exact ⟨⟨accepted, apart, fits, interleaved⟩, placed, by decide +kernel, left⟩

end SubflowMappings

end TcpCapture
