import Mathlib.Data.List.Perm.Basic
import TcpCapture.Multipath.Mapping
import TcpCapture.Proofs.Interval.Search

/-!
# Placing subflow bytes one by one

Mappings cut a stretch of subflow bytes into placed pieces and gaps.  Seen byte by byte nothing is cut:
each byte of the stretch either has a place or has none, and that depends on the mappings alone.

## Main definitions

* `PlacedByte` — one byte of a placed piece
* `Placement` — some positions, sorted into placed bytes and bytes left over
* `SubflowMappings.waiting` — the positions of the pending bytes
* `SubflowMappings.Shows` — where the mappings put every byte

**Which mapping counts.**  Where mappings overlap, a byte goes to the first one that holds it in the
list that the search returns.  The order among those that start together depends on the search, and so
may the place of a byte.  A `view` of placed bytes leaves out what is not determined: its position
always is, and everything is where the mappings are disjoint.
-/

namespace TcpCapture

/-- The size of the subflow sequence space. -/
abbrev seqSpace : Nat := 0x100000000

/-! ### Single bytes -/

/-- A subflow byte placed in the data sequence space. -/
structure PlacedByte where
  /-- Relative subflow position. -/
  position : Nat
  dsn : DataSeq
  mappingFrame : Nat
deriving DecidableEq, Repr

/-- The bytes of a placed piece. -/
def AttributedSpan.bytes (s : AttributedSpan) : List PlacedByte :=
  (List.range s.len).map fun k => ⟨s.ssn.toNat + k, advance s.dsn k, s.mappingFrame⟩

/-- The positions of a stretch. -/
def Stretch.positions (s : Stretch) : List Nat := List.range' s.start s.len

/-- The positions of a pending piece. -/
def PendingSpan.positions (s : PendingSpan) : List Nat := List.range' s.ssn.toNat s.len

/-- The position lies in the range. -/
def Range.holds (r : Range 32) (p : Nat) : Bool :=
  decide (r.low.toNat ≤ p) && decide (p ≤ r.high.toNat)

@[simp] theorem Range.holds_iff {r : Range 32} {p : Nat} :
    r.holds p = true ↔ r.low.toNat ≤ p ∧ p ≤ r.high.toNat := by
  simp [Range.holds]

/-- Where a mapping puts a byte. -/
def MappingTarget.placed (x : Range 32 × MappingTarget) (p : Nat) : PlacedByte :=
  ⟨p, advance x.2.dsn (p - x.1.low.toNat), x.2.frame⟩

/-- Where the infinite mapping puts a byte, unless the byte lies in front of it. -/
def InfiniteMapping.place? (i : InfiniteMapping) (p : Nat) : Option PlacedByte :=
  if i.ssn.toNat ≤ p then some ⟨p, advance i.dsn (p - i.ssn.toNat), i.frame⟩ else none

theorem InfiniteMapping.place?_of_lt {i : InfiniteMapping} {p : Nat} (h : p < i.ssn.toNat) :
    i.place? p = none := if_neg (Nat.not_le.2 h)

theorem InfiniteMapping.place?_of_le {i : InfiniteMapping} {p : Nat} (h : i.ssn.toNat ≤ p) :
    i.place? p = some ⟨p, advance i.dsn (p - i.ssn.toNat), i.frame⟩ := if_pos h

/-- The bytes of a piece that starts in a mapping from `base` on. -/
theorem bytes_piece {base start : Nat} (inside : base ≤ start) (len : Nat)
    (fits : 0 < len → start < seqSpace) (dsn : DataSeq) (frame : Nat) :
    AttributedSpan.bytes ⟨.ofNat 32 start, advance dsn (start - base), len, frame⟩ =
      (List.range' start len).map fun p => ⟨p, advance dsn (p - base), frame⟩ := by
  unfold AttributedSpan.bytes
  rw [List.range'_eq_map_range, List.map_map]
  refine List.map_congr_left fun k mem => ?_
  have start_lt := fits (Nat.zero_lt_of_lt (List.mem_range.1 mem))
  rw [BitVec.toNat_ofNat, Nat.mod_eq_of_lt start_lt, Function.comp_apply, advance_advance,
    Nat.sub_add_comm inside]

/-- A stretch of positions in three parts. -/
theorem range'_split {a b c d : Nat} (hab : a ≤ b) (hbc : b ≤ c) (hcd : c ≤ d) :
    List.range' a (d - a) =
      List.range' a (b - a) ++ (List.range' b (c - b) ++ List.range' c (d - c)) := by
  have whole : d - a = (b - a) + ((c - b) + (d - c)) := by omega
  have first : a + (b - a) = b := by omega
  have second : b + (c - b) = c := by omega
  rw [whole, ← List.range'_append_1, first, ← List.range'_append_1, second]

/-- What a first function leaves out, a second one may still take. -/
theorem filterMap_or_perm {α β : Type} (f g : α → Option β) (l : List α) :
    (l.filterMap f ++ (l.filter fun a => (f a).isNone).filterMap g).Perm
      (l.filterMap fun a => (f a).or (g a)) := by
  induction l with
  | nil => exact List.Perm.refl _
  | cons a rest ih =>
      cases ha : f a with
      | some b =>
          rw [List.filterMap_cons_some ha, List.filter_cons_of_neg (by simp [ha]),
            List.filterMap_cons_some (b := b) (by rw [ha]; rfl)]
          exact ih.cons b
      | none =>
          rw [List.filterMap_cons_none ha, List.filter_cons_of_pos (by simp [ha])]
          cases hg : g a with
          | none =>
              rw [List.filterMap_cons_none hg,
                List.filterMap_cons_none (by rw [ha, hg]; rfl)]
              exact ih
          | some b =>
              rw [List.filterMap_cons_some hg,
                List.filterMap_cons_some (b := b) (by rw [ha, hg]; rfl)]
              exact List.perm_middle.trans (ih.cons b)

/-! ### Sorting positions -/

variable {β : Type}

/-- Some positions, sorted into placed bytes and positions left over as `put` says.  Of the placed
bytes only a view counts. -/
structure Placement (view : PlacedByte → β) (put : Nat → Option β) (positions : List Nat)
    (spans : List AttributedSpan) (left : List Nat) : Prop where
  placed : ((spans.flatMap AttributedSpan.bytes).map view).Perm (positions.filterMap put)
  left_eq : left = positions.filter fun p => (put p).isNone

namespace Placement

variable {view : PlacedByte → β} {put put' : Nat → Option β} {positions positions' : List Nat}
  {spans spans' : List AttributedSpan} {left left' : List Nat}

theorem congr (h : Placement view put positions spans left)
    (same : ∀ p ∈ positions, put p = put' p) : Placement view put' positions spans left where
  placed := (List.filterMap_congr same) ▸ h.placed
  left_eq := h.left_eq.trans (List.filter_congr fun p mem => by rw [same p mem])

theorem perm_spans (h : Placement view put positions spans left) (perm : spans'.Perm spans) :
    Placement view put positions spans' left where
  placed := ((perm.flatMap_right _).map view).trans h.placed
  left_eq := h.left_eq

/-- All is left over where nothing has a place. -/
theorem of_none (nowhere : ∀ p ∈ positions, put p = none) :
    Placement view put positions [] positions where
  placed := List.Perm.of_eq (List.filterMap_eq_nil_iff.2 nowhere).symm
  left_eq := (List.filter_eq_self.2 fun p mem => by rw [nowhere p mem]; rfl).symm

/-- Nothing is left over where one piece takes every position. -/
theorem of_piece {piece : AttributedSpan} {place : Nat → PlacedByte}
    (bytes : piece.bytes = positions.map place)
    (taken : ∀ p ∈ positions, put p = some (view (place p))) :
    Placement view put positions [piece] [] where
  placed := by
    have own : positions.filterMap put = positions.map fun p => view (place p) := by
      rw [← List.filterMap_eq_map]
      exact List.filterMap_congr taken
    rw [own, List.flatMap_singleton, bytes, List.map_map]
    exact List.Perm.refl _
  left_eq := by
    refine (List.filter_eq_nil_iff.2 fun p mem => ?_).symm
    rw [taken p mem]
    exact Bool.false_ne_true

theorem append (h : Placement view put positions spans left)
    (h' : Placement view put positions' spans' left') :
    Placement view put (positions ++ positions') (spans ++ spans') (left ++ left') where
  placed := by
    rw [List.flatMap_append, List.map_append, List.filterMap_append]
    exact h.placed.append h'.placed
  left_eq := by rw [h.left_eq, h'.left_eq, List.filter_append]

theorem flatMap {α : Type} {l : List α} {positions left : α → List Nat}
    {spans : α → List AttributedSpan}
    (each : ∀ a ∈ l, Placement view put (positions a) (spans a) (left a)) :
    Placement view put (l.flatMap positions) (l.flatMap spans) (l.flatMap left) := by
  induction l with
  | nil => exact of_none fun p mem => absurd mem List.not_mem_nil
  | cons a rest ih =>
      rw [List.flatMap_cons, List.flatMap_cons, List.flatMap_cons]
      exact (each a List.mem_cons_self).append
        (ih fun b mem => each b (List.mem_cons_of_mem a mem))

/-- What a first round leaves over is sorted in a second one. -/
theorem or (h : Placement view put positions spans left)
    (h' : Placement view put' left spans' left') :
    Placement view (fun p => (put p).or (put' p)) positions (spans ++ spans') left' where
  placed := by
    rw [List.flatMap_append, List.map_append]
    exact (h.placed.append (h.left_eq ▸ h'.placed)).trans (filterMap_or_perm put put' positions)
  left_eq := by
    rw [h'.left_eq, h.left_eq, List.filter_filter]
    refine List.filter_congr fun p _ => ?_
    rw [Option.isNone_or, Bool.and_comm]

theorem mem_left (h : Placement view put positions spans left) {p : Nat} :
    p ∈ left ↔ p ∈ positions ∧ put p = none := by
  rw [h.left_eq, List.mem_filter, Option.isNone_iff_eq_none]

end Placement

namespace SubflowMappings

/-! ### Along the mappings -/

/-- The first mapping of a list that holds a position. -/
def owner? (l : List (Range 32 × MappingTarget)) (p : Nat) : Option (Range 32 × MappingTarget) :=
  l.find? fun x => x.1.holds p

theorem owner?_cons_of_holds {x : Range 32 × MappingTarget} {p : Nat} (h : x.1.holds p = true)
    (rest : List (Range 32 × MappingTarget)) : owner? (x :: rest) p = some x :=
  List.find?_cons_of_pos h

theorem owner?_cons_of_not {x : Range 32 × MappingTarget} {p : Nat} (h : ¬ x.1.holds p = true)
    (rest : List (Range 32 × MappingTarget)) : owner? (x :: rest) p = owner? rest p :=
  List.find?_cons_of_neg h

theorem owner?_eq_none {l : List (Range 32 × MappingTarget)} {p : Nat}
    (above : ∀ x ∈ l, p < x.1.low.toNat) : owner? l p = none := by
  refine List.find?_eq_none.2 ?_
  intro x mem holds
  exact Nat.not_lt.2 (Range.holds_iff.1 holds).1 (above x mem)

theorem owner?_eq_some {l : List (Range 32 × MappingTarget)} {p : Nat}
    {x : Range 32 × MappingTarget} (h : owner? l p = some x) : x ∈ l ∧ x.1.holds p = true := by
  have held := List.find?_some h
  exact ⟨List.mem_of_find?_eq_some h, held⟩

/-- Where the first mapping of a list that holds a byte puts it. -/
def putAlong (l : List (Range 32 × MappingTarget)) (p : Nat) : Option PlacedByte :=
  (owner? l p).map (MappingTarget.placed · p)

theorem putAlong_eq_none {l : List (Range 32 × MappingTarget)} {p : Nat}
    (h : owner? l p = none) : putAlong l p = none := by
  rw [putAlong, h]
  rfl

theorem putAlong_cons_of_holds {x : Range 32 × MappingTarget} {p : Nat} (h : x.1.holds p = true)
    (rest : List (Range 32 × MappingTarget)) :
    putAlong (x :: rest) p = some (MappingTarget.placed x p) := by
  rw [putAlong, owner?_cons_of_holds h]
  rfl

theorem putAlong_cons_of_not {x : Range 32 × MappingTarget} {p : Nat} (h : ¬ x.1.holds p = true)
    (rest : List (Range 32 × MappingTarget)) : putAlong (x :: rest) p = putAlong rest p := by
  rw [putAlong, owner?_cons_of_not h]
  rfl

/-- A gap is kept when it is not empty. -/
theorem positions_gap (cursor stop : Nat) :
    (if cursor < stop then [Stretch.mk cursor (stop - cursor)] else []).flatMap Stretch.positions =
      List.range' cursor (stop - cursor) := by
  split
  · exact List.append_nil _
  · rename_i done
    rw [Nat.sub_eq_zero_of_le (Nat.not_lt.1 done)]
    rfl

/-- A cover sorts some positions. -/
abbrev Cover.Puts (c : Cover) (view : PlacedByte → β) (put : Nat → Option β)
    (positions : List Nat) : Prop :=
  Placement view put positions c.found (c.gaps.flatMap Stretch.positions)

variable {view : PlacedByte → β} {put : Nat → Option β}

/-- A gap, a placed piece, and what a cover makes of the positions behind. -/
theorem Cover.Puts.cons {c : Cover} {behind : List Nat} (h : c.Puts view put behind)
    {cursor start : Nat} {piece : AttributedSpan} {place : Nat → PlacedByte}
    (front : ∀ p ∈ List.range' cursor (start - cursor), put p = none)
    (bytes : piece.bytes = (List.range' start piece.len).map place)
    (middle : ∀ p ∈ List.range' start piece.len, put p = some (view (place p))) :
    Cover.Puts
      { found := piece :: c.found
        gaps := (if cursor < start then [⟨cursor, start - cursor⟩] else []) ++ c.gaps }
      view put
      (List.range' cursor (start - cursor) ++ (List.range' start piece.len ++ behind)) := by
  unfold Cover.Puts
  rw [List.flatMap_append, positions_gap]
  exact (Placement.of_none front).append ((Placement.of_piece bytes middle).append h)

/-- **Cutting along mappings goes byte by byte**: each byte goes to the first mapping that holds it. -/
theorem tile_puts {query : Range 32} {l : List (Range 32 × MappingTarget)}
    (sorted : l.Pairwise fun x y => x.1.low ≤ y.1.low) {cursor : Nat}
    (begun : query.low.toNat ≤ cursor) :
    (tile query cursor l).Puts view (fun p => (putAlong l p).map view)
      (List.range' cursor (query.high.toNat + 1 - cursor)) := by
  induction l generalizing cursor with
  | nil =>
      rw [tile, Cover.Puts, positions_gap]
      exact Placement.of_none fun _ _ => rfl
  | cons x rest ih =>
      obtain ⟨range, target⟩ := x
      obtain ⟨lowest, sorted⟩ := List.pairwise_cons.1 sorted
      -- a mapping that holds none of the positions left does not count
      have pass (next : Nat) (begun : query.low.toNat ≤ next)
          (clear : ∀ p, next ≤ p → p ≤ query.high.toNat →
            ¬ (range.low.toNat ≤ p ∧ p ≤ range.high.toNat)) :
          (tile query next rest).Puts view (fun p => (putAlong ((range, target) :: rest) p).map view)
            (List.range' next (query.high.toNat + 1 - next)) := by
        refine (ih sorted begun).congr fun p mem => ?_
        have := List.mem_range'_1.1 mem
        rw [putAlong_cons_of_not]
        rw [Range.holds_iff]
        exact clear p (by omega) (by omega)
      rw [tile]
      cases meet : range.intersection query with
      | none =>
          have apart := (Range.overlaps_iff _ _).not.1
            (Bool.eq_false_iff.1 (Range.intersection_eq_none_iff.1 meet))
          rw [BitVec.le_def, BitVec.le_def] at apart
          refine pass cursor begun fun p _ _ => ?_
          omega
      | some part =>
          obtain ⟨low, high⟩ := Range.intersection_eq_some meet
          have ordered := BitVec.le_def.1 part.low_le_high
          have top := query.high.isLt
          dsimp only
          split
          · refine pass cursor begun fun p _ _ => ?_
            omega
          · -- the positions in front of the mapping, those it holds, and those behind it
            generalize hstart : max part.low.toNat cursor = start
            rw [range'_split (show cursor ≤ start by omega)
              (show start ≤ part.high.toNat + 1 by omega) (by omega)]
            have later := pass (part.high.toNat + 1) (by omega) fun p _ _ => by omega
            refine later.cons ?_
              (bytes_piece (show range.low.toNat ≤ start by omega) _
                (fun _ => show start < 0x100000000 by omega) _ _) ?_
            · intro p mem
              have := List.mem_range'_1.1 mem
              refine congrArg (Option.map view) (putAlong_eq_none (owner?_eq_none fun y hy => ?_))
              rcases List.mem_cons.1 hy with rfl | hy
              · show p < range.low.toNat
                omega
              · have : range.low.toNat ≤ y.1.low.toNat := lowest y hy
                omega
            · intro p mem
              have : start ≤ p ∧ p < start + (part.high.toNat + 1 - start) :=
                List.mem_range'_1.1 mem
              refine congrArg (Option.map view)
                (putAlong_cons_of_holds (Range.holds_iff.2 ?_) rest)
              show range.low.toNat ≤ p ∧ p ≤ range.high.toNat
              omega

/-! ### The infinite mapping -/

/-- A gap is cut where the infinite mapping starts. -/
theorem ofGap_puts (i : InfiniteMapping) {gap : Stretch}
    (inSpace : ∀ p ∈ gap.positions, p < seqSpace) :
    (Cover.ofGap i gap).Puts view (fun p => (i.place? p).map view) gap.positions := by
  unfold Cover.ofGap
  dsimp only
  split
  · rename_i below
    rw [Cover.Puts, List.flatMap_singleton]
    refine Placement.of_none fun p mem => Option.map_eq_none_iff.2 ?_
    have := List.mem_range'_1.1 mem
    exact InfiniteMapping.place?_of_lt (by omega)
  · rename_i reaches
    generalize hstart : max gap.start i.ssn.toNat = start
    generalize hstop : gap.start + gap.len = stop at *
    have whole : gap.positions =
        List.range' gap.start (start - gap.start) ++ List.range' start (stop - start) := by
      have split := range'_split (show gap.start ≤ start by omega) (show start ≤ stop by omega)
        (Nat.le_refl stop)
      rw [Nat.sub_self, List.range'_zero, List.append_nil] at split
      rw [← split, ← hstop, Nat.add_sub_cancel_left]
      rfl
    rw [Cover.Puts, positions_gap, whole]
    have front : Placement view (fun p => (i.place? p).map view)
        (List.range' gap.start (start - gap.start)) []
        (List.range' gap.start (start - gap.start)) := by
      refine Placement.of_none fun p mem => Option.map_eq_none_iff.2 ?_
      have := List.mem_range'_1.1 mem
      exact InfiniteMapping.place?_of_lt (by omega)
    have bytes := bytes_piece (show i.ssn.toNat ≤ start by omega) (stop - start)
      (fun pos => inSpace start (whole ▸ List.mem_append_right _ (List.mem_range'_1.2 (by omega))))
      i.dsn i.frame
    have taken : ∀ p ∈ List.range' start (stop - start), (i.place? p).map view =
        some (view ⟨p, advance i.dsn (p - i.ssn.toNat), i.frame⟩) := by
      intro p mem
      have := List.mem_range'_1.1 mem
      exact congrArg (Option.map view) (InfiniteMapping.place?_of_le (by omega))
    have both := front.append (Placement.of_piece bytes taken)
    rw [List.append_nil] at both
    exact both

/-- The infinite mapping takes the bytes that no other mapping holds. -/
theorem Cover.Puts.extend {c : Cover} {positions : List Nat} (h : c.Puts view put positions)
    (inSpace : ∀ p ∈ positions, p < seqSpace) (i : InfiniteMapping) :
    (c.extend i).Puts view (fun p => (put p).or ((i.place? p).map view)) positions := by
  have each : ∀ gap ∈ c.gaps,
      (Cover.ofGap i gap).Puts view (fun p => (i.place? p).map view) gap.positions := by
    intro gap mem
    refine ofGap_puts i fun p hp => inSpace p ?_
    exact (h.mem_left.1 (List.mem_flatMap.2 ⟨gap, mem, hp⟩)).1
  have filled := h.or (Placement.flatMap each)
  rw [Cover.Puts, Cover.extend]
  dsimp only
  rw [List.flatMap_map, List.flatMap_map, List.flatMap_assoc]
  exact filled.perm_spans (List.mergeSort_perm _ _)

/-! ### All mappings together -/

variable {m : SubflowMappings}

/-- Where the mappings put a byte, as a search for the query meets them. -/
def locate? (m : SubflowMappings) (query : Range 32) (p : Nat) : Option PlacedByte :=
  (putAlong (m.tree.findAll query) p).or (m.infinite.bind (·.place? p))

/-- The mappings put every byte where `put` says, whatever the query that meets it. -/
def Shows (m : SubflowMappings) (view : PlacedByte → β) (put : Nat → Option β) : Prop :=
  ∀ (query : Range 32) (p : Nat), query.holds p = true → (m.locate? query p).map view = put p

/-- A stretch that fits has a range. -/
theorem exists_range {ssn : Seq} {len : Nat} (pos : 0 < len) (fits : ssn.toNat + len ≤ seqSpace) :
    ∃ query, Range.ofLength ssn len = .ok query := by
  refine Range.exists_ofLength pos ?_
  show ssn.toNat + (len - 1) ≤ seqSpace - 1
  omega

/-- What `cover` does to each byte of a stretch. -/
theorem cover_locate {ssn : Seq} {len : Nat} {query : Range 32}
    (asked : Range.ofLength ssn len = .ok query) :
    (m.cover ssn len).Puts view (fun p => (m.locate? query p).map view)
      (List.range' ssn.toNat len) := by
  obtain ⟨pos, low, high⟩ := Range.ofLength_eq_ok asked
  have begun : query.low.toNat ≤ ssn.toNat := Nat.le_of_eq (congrArg BitVec.toNat low)
  have tiled : (tile query ssn.toNat (m.tree.findAll query)).Puts view _ _ :=
    tile_puts (m.tree.pairwise_findAll query) begun
  have all : query.high.toNat + 1 - ssn.toNat = len := by omega
  rw [all] at tiled
  unfold cover locate?
  rw [if_neg (Nat.ne_of_gt pos), asked]
  dsimp only
  cases hinf : m.infinite with
  | none =>
      refine tiled.congr fun p _ => ?_
      rw [Option.bind_none, Option.or_none]
  | some i =>
      refine (tiled.extend (fun p mem => ?_) i).congr fun p _ => ?_
      · have := List.mem_range'_1.1 mem
        have top := query.high.isLt
        show p < 0x100000000
        omega
      · rw [Option.bind_some, Option.map_or]

/-- What `cover` does where it is known where the mappings put every byte. -/
theorem cover_puts (shows : m.Shows view put) {ssn : Seq} {len : Nat}
    (fits : ssn.toNat + len ≤ seqSpace) :
    (m.cover ssn len).Puts view put (List.range' ssn.toNat len) := by
  rcases Nat.eq_zero_or_pos len with rfl | pos
  · exact Placement.of_none fun p mem => absurd mem List.not_mem_nil
  · obtain ⟨query, asked⟩ := exists_range pos fits
    obtain ⟨-, low, high⟩ := Range.ofLength_eq_ok asked
    refine (cover_locate asked).congr fun p mem => shows query p (Range.holds_iff.2 ?_)
    have := List.mem_range'_1.1 mem
    rw [low]
    omega

/-! ### Pending bytes -/

/-- The positions of the pending bytes. -/
def waiting (m : SubflowMappings) : List Nat := m.pending.flatMap PendingSpan.positions

/-- The pending pieces end inside the sequence space. -/
def Fits (m : SubflowMappings) : Prop := ∀ s ∈ m.pending, s.ssn.toNat + s.len ≤ seqSpace

/-- Gaps keep their positions when they become pending pieces. -/
theorem positions_pend (frame : Nat) {gaps : List Stretch}
    (inSpace : ∀ p ∈ gaps.flatMap Stretch.positions, p < seqSpace) :
    (pend frame gaps).flatMap PendingSpan.positions = gaps.flatMap Stretch.positions := by
  rw [pend, List.flatMap_map]
  refine List.flatMap_congr fun gap mem => ?_
  unfold PendingSpan.positions Stretch.positions
  cases hlen : gap.len with
  | zero => rfl
  | succ len =>
      have first : gap.start ∈ gap.positions := List.mem_range'_1.2 (by omega)
      have := inSpace gap.start (List.mem_flatMap.2 ⟨gap, mem, first⟩)
      rw [BitVec.toNat_ofNat, Nat.mod_eq_of_lt this]

theorem fits_pend (frame : Nat) {gaps : List Stretch}
    (inSpace : ∀ p ∈ gaps.flatMap Stretch.positions, p < seqSpace) :
    ∀ s ∈ pend frame gaps, s.ssn.toNat + s.len ≤ seqSpace := by
  intro s mem
  obtain ⟨gap, hgap, rfl⟩ := List.mem_map.1 mem
  dsimp only
  cases hlen : gap.len with
  | zero => exact Nat.le_of_lt (BitVec.isLt _)
  | succ len =>
      have last : gap.start + len ∈ gap.positions := List.mem_range'_1.2 (by omega)
      have := inSpace _ (List.mem_flatMap.2 ⟨gap, hgap, last⟩)
      rw [BitVec.toNat_ofNat, Nat.mod_eq_of_lt (Nat.lt_of_le_of_lt (Nat.le_add_right _ _) this)]
      exact this

/-- The bytes left over of a stretch inside the sequence space lie inside it, too. -/
theorem Cover.Puts.inSpace {c : Cover} {start len : Nat}
    (h : c.Puts view put (List.range' start len)) (fits : start + len ≤ seqSpace) :
    ∀ p ∈ c.gaps.flatMap Stretch.positions, p < seqSpace := by
  intro p mem
  have := List.mem_range'_1.1 (h.mem_left.1 mem).1
  omega

theorem Fits.resolvePending (fits : m.Fits) (shows : m.Shows view put) :
    m.resolvePending.1.Fits := by
  intro s mem
  unfold SubflowMappings.resolvePending at mem
  obtain ⟨⟨frame, c⟩, hc, hs⟩ := List.mem_flatMap.1 mem
  obtain ⟨span, hspan, eq⟩ := List.mem_map.1 hc
  obtain ⟨rfl, rfl⟩ := Prod.mk.inj eq
  have fit := fits span hspan
  exact fits_pend _ ((cover_puts shows fit).inSpace fit) s hs

theorem Fits.place (fits : m.Fits) (shows : m.Shows view put) {ssn : Seq} {len : Nat}
    (fit : ssn.toNat + len ≤ seqSpace) (frame : Nat) : (m.place ssn len frame).1.Fits := by
  intro s mem
  rcases List.mem_append.1 mem with old | new
  · exact fits s old
  · exact fits_pend _ ((cover_puts shows fit).inSpace fit) s new

/-- **What becomes of the pending bytes**: those the mappings put somewhere are placed there, and the
others stay pending. -/
theorem resolvePending_placement (fits : m.Fits) (shows : m.Shows view put) :
    Placement view put m.waiting m.resolvePending.2 m.resolvePending.1.waiting := by
  have each : ∀ s ∈ m.pending, Placement view put s.positions (m.cover s.ssn s.len).found
      ((pend s.frame (m.cover s.ssn s.len).gaps).flatMap PendingSpan.positions) := by
    intro s mem
    have cut := cover_puts shows (fits s mem)
    rw [positions_pend _ (cut.inSpace (fits s mem))]
    exact cut
  have all := Placement.flatMap each
  unfold waiting SubflowMappings.resolvePending
  dsimp only
  rw [List.flatMap_map, List.flatMap_map, List.flatMap_assoc]
  exact all

/-- What becomes of new bytes, when the pending ones have no place. -/
theorem place_placement (shows : m.Shows view put) {ssn : Seq} {len : Nat}
    (fit : ssn.toNat + len ≤ seqSpace) (frame : Nat) (settled : ∀ p ∈ m.waiting, put p = none) :
    Placement view put (m.waiting ++ List.range' ssn.toNat len) (m.place ssn len frame).2
      (m.place ssn len frame).1.waiting := by
  have cut := cover_puts shows fit
  have both := (Placement.of_none settled).append cut
  rw [← positions_pend frame (cut.inSpace fit)] at both
  unfold waiting SubflowMappings.place
  dsimp only
  rw [List.flatMap_append]
  exact both

/-! ### Positions -/

/-- Some mapping puts the byte somewhere. -/
def maps (m : SubflowMappings) (p : Nat) : Bool :=
  m.tree.toList.any (·.1.holds p) || m.infinite.any (·.ssn.toNat ≤ p)

theorem maps_iff {p : Nat} :
    m.maps p = true ↔ (∃ x ∈ m.tree.toList, x.1.holds p = true) ∨
      ∃ i, m.infinite = some i ∧ i.ssn.toNat ≤ p := by
  rw [maps, Bool.or_eq_true, List.any_eq_true, Option.any_eq_true]
  simp only [decide_eq_true_eq]

/-- A search for a position meets every mapping that holds it. -/
theorem any_holds_findAll (wf : m.tree.WellFormed) {query : Range 32} {p : Nat}
    (held : query.holds p = true) :
    (m.tree.findAll query).any (·.1.holds p) = m.tree.toList.any (·.1.holds p) := by
  rw [Bool.eq_iff_iff, List.any_eq_true, List.any_eq_true]
  refine exists_congr fun x => ?_
  rw [wf.mem_findAll]
  refine ⟨fun h => ⟨h.1.1, h.2⟩, fun h => ⟨⟨h.1, ?_⟩, h.2⟩⟩
  have own := Range.holds_iff.1 h.2
  have asked := Range.holds_iff.1 held
  rw [Range.overlaps_iff, BitVec.le_def, BitVec.le_def]
  omega

theorem isSome_locate? (wf : m.tree.WellFormed) {query : Range 32} {p : Nat}
    (held : query.holds p = true) : (m.locate? query p).isSome = m.maps p := by
  have along : (putAlong (m.tree.findAll query) p).isSome = m.tree.toList.any (·.1.holds p) := by
    rw [putAlong, Option.isSome_map, owner?, List.isSome_find?, any_holds_findAll wf held]
  have infinite : (m.infinite.bind (·.place? p)).isSome = m.infinite.any (·.ssn.toNat ≤ p) := by
    cases m.infinite with
    | none => rfl
    | some i =>
        rw [Option.bind_some, Option.any_some, InfiniteMapping.place?]
        split <;> simp [*]
  rw [locate?, Option.isSome_or, along, infinite, maps]

theorem position_of_locate? {query : Range 32} {p : Nat} {b : PlacedByte}
    (h : m.locate? query p = some b) : b.position = p := by
  rcases Option.or_eq_some_iff.1 h with along | ⟨-, infinite⟩
  · obtain ⟨x, -, rfl⟩ := Option.map_eq_some_iff.1 along
    rfl
  · obtain ⟨i, -, placed⟩ := Option.bind_eq_some_iff.1 infinite
    unfold InfiniteMapping.place? at placed
    split at placed
    · cases placed
      rfl
    · cases placed

/-- **What the mappings always determine**: which bytes they put somewhere. -/
theorem shows_position (wf : m.tree.WellFormed) :
    m.Shows PlacedByte.position fun p => if m.maps p then some p else none := by
  intro query p held
  have known := isSome_locate? wf held
  dsimp only
  cases found : m.locate? query p with
  | none =>
      rw [found] at known
      rw [← known]
      rfl
  | some b =>
      rw [found] at known
      rw [← known, ← position_of_locate? found]
      rfl

end SubflowMappings

end TcpCapture
