import TcpCapture.Proofs.Multipath.Words

/-!
# What becomes of one stretch

Mappings may overlap and be nested in any way, and behind them there may be the infinite one.  A stretch of
subflow bytes is split by them into placed pieces and pending ones, so that no byte is lost or told twice.

## Main definitions

* `Announcement.Covered` — some accepted mapping has the byte
* `Announcement.Owns` — a mapping that has the byte and starts no later than the others that have it
* `Attribution` — a stretch, split exactly
* `SubflowMappings.attribution_place` — every stretch is split so, after any calls

**Owners that start together.**  Two mappings may have a byte and start at the same place.  Then either of
them may own it, so an owner is not a function of the byte here.
-/

namespace TcpCapture

/-- The positions of a placed piece. -/
def AttributedSpan.positions (s : AttributedSpan) : List Nat := List.range' s.ssn.toNat s.len

theorem AttributedSpan.map_position_bytes (s : AttributedSpan) :
    s.bytes.map (·.position) = s.positions := by
  rw [bytes, positions, List.range'_eq_map_range, List.map_map]
  rfl

namespace Announcement

/-- Some accepted mapping has the byte. -/
def Covered (mappings : List Announcement) (p : Nat) : Prop :=
  ∃ a ∈ mappings, a.Accepted ∧ a.holds p = true

instance (mappings : List Announcement) (p : Nat) : Decidable (Covered mappings p) :=
  inferInstanceAs (Decidable (∃ a ∈ mappings, _ ∧ _))

/-- The mapping is accepted and has the byte, and of those that do it starts first. -/
structure Owns (a : Announcement) (mappings : List Announcement) (p : Nat) : Prop where
  mem : a ∈ mappings
  accepted : a.Accepted
  holds : a.holds p = true
  first : ∀ a' ∈ mappings, a'.Accepted → a'.holds p = true → a.ssn ≤ a'.ssn

end Announcement

/-- A stretch of `len` bytes from `ssn` on, split into placed pieces and pending ones. -/
structure Attribution (mappings : List Announcement) (infinite : Option InfiniteMapping) (ssn : Seq)
    (len frame : Nat) (spans : List AttributedSpan) (left : List PendingSpan) : Prop where
  spans_pos : ∀ s ∈ spans, 0 < s.len
  left_pos : ∀ s ∈ left, 0 < s.len
  ordered : spans.Pairwise fun s s' => s.ssn.toNat + s.len ≤ s'.ssn.toNat
  /-- No byte is missing, and none is in two pieces. -/
  split : (spans.flatMap AttributedSpan.positions ++ left.flatMap PendingSpan.positions).Perm
    (List.range' ssn.toNat len)
  /-- A byte inside a mapping is placed by one that starts first. -/
  mapped : ∀ p ∈ List.range' ssn.toNat len, Announcement.Covered mappings p →
    ∃ a : Announcement, a.Owns mappings p ∧ a.placed p ∈ spans.flatMap AttributedSpan.bytes
  /-- A byte inside none of them is placed by the infinite mapping, unless it lies in front of it. -/
  fallen : ∀ p ∈ List.range' ssn.toNat len, ¬ Announcement.Covered mappings p →
    ∀ i, infinite = some i → i.ssn.toNat ≤ p →
      ⟨p, advance i.dsn (p - i.ssn.toNat), i.frame⟩ ∈ spans.flatMap AttributedSpan.bytes
  /-- Every other byte waits. -/
  waits : ∀ p ∈ List.range' ssn.toNat len, ¬ Announcement.Covered mappings p →
    (∀ i, infinite = some i → p < i.ssn.toNat) → p ∈ left.flatMap PendingSpan.positions
  frames : ∀ s ∈ left, s.frame = frame

namespace SubflowMappings

variable {m : SubflowMappings} {mappings : List Announcement} {query : Range 32} {p : Nat}

/-! ### The owner of a byte -/

/-- A byte that some mapping has is put where an owner puts it. -/
theorem Keeps.putAlong_of_covered (h : m.Keeps mappings) (inside : query.holds p = true)
    (covered : Announcement.Covered mappings p) :
    ∃ a : Announcement, a.Owns mappings p ∧ putAlong (m.tree.findAll query) p = some (a.placed p) := by
  obtain ⟨a, mem, accepted, own⟩ := covered
  obtain ⟨range, -, reached, met⟩ := h.exists_mem_findAll inside mem accepted own
  cases found : owner? (m.tree.findAll query) p with
  | none => exact absurd reached (List.find?_eq_none.1 found _ met)
  | some x =>
      obtain ⟨metOwner, ownerHolds⟩ := owner?_eq_some found
      obtain ⟨owner, listed, taken, low, holds, placed⟩ :=
        h.exists_announcement (h.wellFormed.mem_findAll.1 metOwner).1
      refine ⟨owner, ⟨listed, taken, (holds p).trans ownerHolds, fun a' mem' accepted' own' => ?_⟩, ?_⟩
      · obtain ⟨range', hrange', reached', met'⟩ := h.exists_mem_findAll inside mem' accepted' own'
        rw [low, ← (Range.ofLength_eq_ok hrange').2.1]
        exact (hits_findAll h.wellFormed query).low_le_of_owner? found met' reached'
      · rw [putAlong, found, Option.map_some, placed]

/-- A byte that no mapping has is put nowhere by them. -/
theorem Keeps.putAlong_of_not_covered (h : m.Keeps mappings)
    (uncovered : ¬ Announcement.Covered mappings p) :
    putAlong (m.tree.findAll query) p = none := by
  refine putAlong_eq_none (List.find?_eq_none.2 fun x met own => uncovered ?_)
  obtain ⟨a, mem, accepted, -, holds, -⟩ :=
    h.exists_announcement (h.wellFormed.mem_findAll.1 met).1
  exact ⟨a, mem, accepted, (holds p).trans own⟩

/-! ### Pieces in order -/

/-- The pieces of a cover never go back. -/
theorem pairwise_found_cover (wf : m.tree.WellFormed) {ssn : Seq} {len : Nat}
    (asked : Range.ofLength ssn len = .ok query) :
    (m.cover ssn len).found.Pairwise fun s s' => s.ssn ≤ s'.ssn := by
  obtain ⟨pos, low, -⟩ := Range.ofLength_eq_ok asked
  unfold cover
  rw [if_neg (Nat.ne_of_gt pos), asked]
  dsimp only
  cases m.infinite with
  | none =>
      have begun : query.low.toNat ≤ ssn.toNat := Nat.le_of_eq (congrArg BitVec.toNat low)
      exact ((hits_findAll wf query).found_sorted begun).1.imp BitVec.le_of_lt
  | some i =>
      refine (List.pairwise_mergeSort (fun x y z xy yz => ?_) (fun x y => ?_) _).imp
        fun le => of_decide_eq_true le
      · exact decide_eq_true (BitVec.le_trans (of_decide_eq_true xy) (of_decide_eq_true yz))
      · simpa using BitVec.le_total x.ssn y.ssn

/-- Pieces that never go back, are not empty and share no byte end before the next one begins. -/
theorem pairwise_ends {spans : List AttributedSpan}
    (sorted : spans.Pairwise fun s s' => s.ssn ≤ s'.ssn) (pos : ∀ s ∈ spans, 0 < s.len)
    (distinct : (spans.flatMap AttributedSpan.positions).Nodup) :
    spans.Pairwise fun s s' => s.ssn.toNat + s.len ≤ s'.ssn.toNat := by
  refine (sorted.and (List.nodup_flatMap.1 distinct).2).imp_of_mem ?_
  rintro s s' - mem' ⟨le, disjoint⟩
  have own : s'.ssn.toNat ∈ s'.positions := List.mem_range'_1.2 (by have := pos s' mem'; omega)
  have other : s'.ssn.toNat ∉ s.positions := fun both => disjoint both own
  rw [AttributedSpan.positions, List.mem_range'_1, ← BitVec.le_def] at other
  exact Nat.not_lt.1 fun before => other ⟨le, before⟩

/-! ### All bytes of a stretch -/

/-- The placed and the pending positions of a cover are those of the stretch. -/
theorem cover_positions (wf : m.tree.WellFormed) {ssn : Seq} {len : Nat}
    (fits : ssn.toNat + len ≤ seqSpace) :
    ((m.cover ssn len).found.flatMap AttributedSpan.positions ++
        (m.cover ssn len).gaps.flatMap Stretch.positions).Perm (List.range' ssn.toNat len) := by
  obtain ⟨placed, left⟩ := cover_puts (shows_position wf) fits
  have positions : ((m.cover ssn len).found.flatMap AttributedSpan.bytes).map (·.position) =
      (m.cover ssn len).found.flatMap AttributedSpan.positions := by
    rw [List.map_flatMap]
    exact List.flatMap_congr fun s _ => s.map_position_bytes
  have both := filterMap_or_perm (fun p => if m.maps p then some p else none) some
    (List.range' ssn.toNat len)
  have each (p : Nat) : (if m.maps p then some p else none).or (some p) = some p := by
    split <;> rfl
  simp only [each, List.filterMap_some] at both
  rw [← positions, left]
  exact (placed.append_right _).trans both

/-- Where a cover places a byte, one of its pieces shows it. -/
theorem mem_bytes_cover {ssn : Seq} {len : Nat} (asked : Range.ofLength ssn len = .ok query)
    (mem : p ∈ List.range' ssn.toNat len) {b : PlacedByte} (located : m.locate? query p = some b) :
    b ∈ (m.cover ssn len).found.flatMap AttributedSpan.bytes := by
  have cut : (m.cover ssn len).Puts (fun b => b) _ _ := cover_locate asked
  have placed := cut.placed.mem_iff (a := b)
  rw [List.map_id'] at placed
  refine placed.2 (List.mem_filterMap.2 ⟨p, mem, ?_⟩)
  rw [located]
  rfl

/-- **Whatever mappings are kept, a cover splits a stretch exactly.** -/
theorem Keeps.attribution (h : m.Keeps mappings) {ssn : Seq} {len : Nat} (pos : 0 < len)
    (fits : ssn.toNat + len ≤ seqSpace) (frame : Nat) :
    Attribution mappings m.infinite ssn len frame (m.cover ssn len).found
      (pend frame (m.cover ssn len).gaps) := by
  obtain ⟨query, asked⟩ := exists_range pos fits
  obtain ⟨-, low, high⟩ := Range.ofLength_eq_ok asked
  have inside : ∀ p ∈ List.range' ssn.toNat len, query.holds p = true := by
    intro p mem
    have := List.mem_range'_1.1 mem
    rw [Range.holds_iff, low]
    omega
  have sorted : (m.cover ssn len).Puts (fun b => b) _ _ := cover_locate asked
  have pending := positions_pend frame (sorted.inSpace fits)
  have split := cover_positions h.wellFormed fits
  have solid := solid_cover h.wellFormed asked
  constructor
  case spans_pos => exact solid.found
  case left_pos =>
    intro s mem
    obtain ⟨gap, there, rfl⟩ := List.mem_map.1 mem
    exact solid.gaps gap there
  case ordered =>
    refine pairwise_ends (pairwise_found_cover h.wellFormed asked) solid.found ?_
    exact (List.nodup_append.1 (split.nodup_iff.2 List.nodup_range')).1
  case split => rwa [pending]
  case mapped =>
    intro p mem covered
    obtain ⟨a, owns, put⟩ := h.putAlong_of_covered (inside p mem) covered
    refine ⟨a, owns, mem_bytes_cover asked mem ?_⟩
    rw [locate?, put]
    rfl
  case fallen =>
    intro p mem uncovered i there past
    refine mem_bytes_cover asked mem ?_
    rw [locate?, h.putAlong_of_not_covered uncovered, there]
    exact InfiniteMapping.place?_of_le past
  case waits =>
    intro p mem uncovered before
    rw [pending]
    refine sorted.mem_left.2 ⟨mem, ?_⟩
    rw [locate?, h.putAlong_of_not_covered uncovered]
    cases there : m.infinite with
    | none => rfl
    | some i => exact congrArg _ (InfiniteMapping.place?_of_lt (before i there))
  case frames =>
    intro s mem
    obtain ⟨gap, there, rfl⟩ := List.mem_map.1 mem
    rfl

/-! ### Any stretch, after any calls -/

/-- **Attribution of one stretch is exact**: after any calls a stretch that ends inside the sequence space is
split into placed pieces and pending ones, and no arithmetic on the way loses bits. -/
theorem attribution_place (ops : List MappingOp) {ssn : Seq} {len : BitVec 32} (pos : 0 < len)
    (fits : ssn.toNat + len.toNat ≤ seqSpace) (frame : Nat) :
    let m := after {} ops
    ∃ spans left,
      m.place ssn len.toNat frame = ({ m with pending := m.pending ++ left }, spans) ∧
      m.place? ssn len frame = some ({ m with pending := m.pending ++ left }, spans) ∧
      Attribution (announced ops) (ops.findSome? MappingOp.infinite?) ssn len.toNat frame spans
        left := by
  intro m
  have keeps : m.Keeps (announced ops) := keeps_after ops
  have split := keeps.attribution (BitVec.lt_def.1 pos) fits frame
  rw [show m.infinite = _ from infinite_after ops] at split
  exact ⟨_, _, rfl, place?_eq_some keeps.wellFormed fits frame, split⟩

/-- Nested mappings, two that start together, one that is refused, data sequence numbers that wrap, a
second infinite mapping that does not count, and a stretch up to the end of the sequence space. -/
theorem attribution_place_nested :
    let ops : List MappingOp :=
      [.insert 0xffffff10 64 500 2, .insert 0xffffff00 32 0xfffffffffffffff0 1,
        .place 0xfffffef8 4 3, .insert 0xffffff18 4 900 4, .insert 0xffffff10 80 700 5,
        .insert 0xfffffff8 16 0 6, .setInfinite 0xffffff80 0xffffffffffffff00 7,
        .setInfinite 0 0 8]
    let m := after {} ops
    ((0 : BitVec 32) < 0x110 ∧ (0xfffffef0 : Seq).toNat + (0x110 : BitVec 32).toNat ≤ seqSpace) ∧
      ∃ spans left,
        m.place 0xfffffef0 0x110 9 = ({ m with pending := m.pending ++ left }, spans) ∧
        m.place? 0xfffffef0 0x110 9 = some ({ m with pending := m.pending ++ left }, spans) ∧
        Attribution (announced ops) (some ⟨0xffffff80, 0xffffffffffffff00, 7⟩) 0xfffffef0 0x110 9
          spans left ∧
        ⟨0xffffff18, 8, 1⟩ ∈ spans.flatMap AttributedSpan.bytes ∧
        ⟨0xffffffff, 0xffffffffffffff7f, 7⟩ ∈ spans.flatMap AttributedSpan.bytes ∧
        0xffffff7f ∈ left.flatMap PendingSpan.positions := by
  intro ops m
  have pos : (0 : BitVec 32) < 0x110 := by decide
  have fits : (0xfffffef0 : Seq).toNat + (0x110 : BitVec 32).toNat ≤ seqSpace := by decide
  obtain ⟨spans, left, place, place?, split⟩ := attribution_place ops pos fits 9
  have first : ops.findSome? MappingOp.infinite? = some ⟨0xffffff80, 0xffffffffffffff00, 7⟩ := rfl
  rw [first] at split
  -- three mappings have this byte, and one of them starts in front of the others
  have owned : (⟨0xffffff18, 8, 1⟩ : PlacedByte) ∈ spans.flatMap AttributedSpan.bytes := by
    obtain ⟨a, owns, placed⟩ := split.mapped 0xffffff18 (by simp) (by decide)
    have least : ∀ a ∈ announced ops, a.Accepted → a.holds 0xffffff18 = true →
        a.ssn ≤ 0xffffff00 → a.placed 0xffffff18 = ⟨0xffffff18, 8, 1⟩ := by decide
    have before := owns.first ⟨0xffffff00, 32, 0xfffffffffffffff0, 1⟩ (by decide) (by decide)
      (by decide)
    rwa [least a owns.mem owns.accepted owns.holds before] at placed
  have fallen := split.fallen 0xffffffff (by simp) (by decide) _ rfl (by decide)
  have waits := split.waits 0xffffff7f (by simp) (by decide) (by simp)
  exact ⟨⟨pos, fits⟩, spans, left, place, place?, split, owned, fallen, waits⟩

end SubflowMappings

end TcpCapture
