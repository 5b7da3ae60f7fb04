import TcpCapture.Multipath.Words
import TcpCapture.Proofs.Multipath.Locality

/-!
# Placing subflow bytes loses no bits

Cut in machine words, where every sum, difference and cast to fewer bits is refused if bits would be lost,
a stretch comes apart as it does in plain numbers.  So none of them is ever refused.

## Main definitions

* `Stretch.words` — a stretch in words
* `SubflowMappings.tile?_eq`, `SubflowMappings.ofGap?_eq` — the cuts, in words and in numbers
* `SubflowMappings.place?_eq_some` — placing a stretch, in words and in numbers

**How far numbers go.**  Positions are below `2 ^ 32` and the ends of stretches at most there, so all of
them fit 64 bits with room to spare.  A length fits 32 bits because no piece is longer than what was asked.
-/

namespace TcpCapture

/-- How many words of 64 bits there are. -/
abbrev wordSpace : Nat := 0x10000000000000000

theorem spaces_eq : seqSpace = 0x100000000 ∧ wordSpace = 0x10000000000000000 := ⟨rfl, rfl⟩

/-! ### Words as numbers -/

namespace Word

theorem toNat_ofNat {x : Nat} (small : x < wordSpace) : (BitVec.ofNat 64 x).toNat = x := by
  rw [BitVec.toNat_ofNat]
  exact Nat.mod_eq_of_lt small

theorem widen_eq (x : BitVec 32) : widen x = .ofNat 64 x.toNat := (BitVec.ofNat_toNat 64 x).symm

theorem add?_ofNat {x y : Nat} (small : x + y < wordSpace) :
    add? (.ofNat 64 x) (.ofNat 64 y) = some (.ofNat 64 (x + y)) := by
  have exact : BitVec.uaddOverflow (BitVec.ofNat 64 x) (BitVec.ofNat 64 y) = false := by
    unfold BitVec.uaddOverflow
    rw [toNat_ofNat (by omega), toNat_ofNat (by omega)]
    exact decide_eq_false (Nat.not_le.2 small)
  rw [add?, exact, if_neg Bool.false_ne_true, BitVec.ofNat_add]

theorem sub?_ofNat {x y : Nat} (small : x < wordSpace) (le : y ≤ x) :
    sub? (.ofNat 64 x) (.ofNat 64 y) = some (.ofNat 64 (x - y)) := by
  have exact : BitVec.usubOverflow (BitVec.ofNat 64 x) (BitVec.ofNat 64 y) = false := by
    unfold BitVec.usubOverflow
    rw [toNat_ofNat small, toNat_ofNat (by omega)]
    exact decide_eq_false (Nat.not_lt.2 le)
  rw [sub?, exact, if_neg Bool.false_ne_true,
    BitVec.ofNat_sub_ofNat_of_le _ _ (Nat.lt_of_le_of_lt le small) le]

theorem le_ofNat {x y : Nat} (hx : x < wordSpace) (hy : y < wordSpace) :
    BitVec.ofNat 64 x ≤ BitVec.ofNat 64 y ↔ x ≤ y := by
  rw [BitVec.le_def, toNat_ofNat hx, toNat_ofNat hy]

theorem lt_ofNat {x y : Nat} (hx : x < wordSpace) (hy : y < wordSpace) :
    BitVec.ofNat 64 x < BitVec.ofNat 64 y ↔ x < y := by
  rw [BitVec.lt_def, toNat_ofNat hx, toNat_ofNat hy]

theorem higher_ofNat {x y : Nat} (hx : x < wordSpace) (hy : y < wordSpace) :
    Range.higher (.ofNat 64 x) (.ofNat 64 y) = BitVec.ofNat 64 (max x y) := by
  apply BitVec.eq_of_toNat_eq
  rw [Range.toNat_higher, toNat_ofNat hx, toNat_ofNat hy, toNat_ofNat (by omega)]

theorem narrow?_ofNat {x : Nat} (small : x < seqSpace) :
    narrow? (.ofNat 64 x) = some (.ofNat 32 x) := by
  have fits : BitVec.ofNat 64 x ≤ widen (.allOnes 32) := by
    rw [widen_eq, le_ofNat (Nat.lt_trans small (by decide)) (by decide)]
    exact Nat.le_of_lt_succ small
  rw [narrow?, if_pos fits, BitVec.setWidth_ofNat_of_le (by decide)]

end Word

/-- A stretch in words. -/
def Stretch.words (s : Stretch) : WordStretch := (.ofNat 64 s.start, .ofNat 64 s.len)

namespace SubflowMappings

/-! ### Pieces and gaps -/

theorem gap?_ofNat {start stop : Nat} (hstart : start < wordSpace) (hstop : stop < wordSpace) :
    gap? (.ofNat 64 start) (.ofNat 64 stop) =
      some ((if start < stop then [Stretch.mk start (stop - start)] else []).map Stretch.words) := by
  unfold gap?
  by_cases behind : start < stop
  · rw [if_pos ((Word.lt_ofNat hstart hstop).2 behind), if_pos behind,
      Word.sub?_ofNat hstop (Nat.le_of_lt behind)]
    rfl
  · rw [if_neg (mt (Word.lt_ofNat hstart hstop).1 behind), if_neg behind]
    rfl

theorem piece?_ofNat {start stop : Nat} {base : Seq} (inside : base.toNat ≤ start)
    (hstart : start < seqSpace) (le : start ≤ stop) (short : stop - start < seqSpace) (dsn : DataSeq)
    (frame : Nat) :
    piece? (.ofNat 64 start) (.ofNat 64 stop) base dsn frame =
      some ⟨.ofNat 32 start, advance dsn (start - base.toNat), stop - start, frame⟩ := by
  have spaces := spaces_eq
  unfold piece?
  simp only [Word.widen_eq, Word.sub?_ofNat (show start < wordSpace by omega) inside,
    Word.sub?_ofNat (show stop < wordSpace by omega) le, Word.narrow?_ofNat hstart,
    Word.narrow?_ofNat short, Option.bind_eq_bind, Option.bind_some]
  rw [BitVec.toNat_ofNat, Nat.mod_eq_of_lt short]
  rfl

theorem narrowGap?_words {gap : Stretch} (hstart : gap.start < seqSpace) (hlen : gap.len < seqSpace) :
    narrowGap? gap.words = some gap := by
  unfold narrowGap? Stretch.words
  simp only [Word.narrow?_ofNat hstart, Word.narrow?_ofNat hlen, Option.bind_eq_bind,
    Option.bind_some]
  rw [BitVec.toNat_ofNat, Nat.mod_eq_of_lt hstart, BitVec.toNat_ofNat, Nat.mod_eq_of_lt hlen]
  rfl

/-- A map of a list that never fails. -/
theorem mapM_map_eq_some {α β γ : Type} {f : β → Option γ} {g : α → β} {h : α → γ} {l : List α}
    (each : ∀ a ∈ l, f (g a) = some (h a)) : (l.map g).mapM f = some (l.map h) := by
  induction l with
  | nil => rfl
  | cons a rest ih =>
      rw [List.map_cons, List.mapM_cons, each a List.mem_cons_self,
        ih fun b mem => each b (List.mem_cons_of_mem a mem)]
      rfl

/-- A cover in words, before its gaps are made narrow. -/
def Cover.words (c : Cover) : WordCover := ⟨c.found, c.gaps.map Stretch.words⟩

/-! ### Cutting -/

/-- **Cutting along mappings loses no bits.** -/
theorem tile?_eq {query : Range 32} (short : query.high.toNat + 1 - query.low.toNat < seqSpace)
    {l : List (Range 32 × MappingTarget)} {cursor : Nat} (begun : query.low.toNat ≤ cursor)
    (small : cursor ≤ seqSpace) :
    tile? query (.ofNat 64 cursor) l = some (tile query cursor l).words := by
  have spaces := spaces_eq
  have behind (x : BitVec 32) : Word.add? (Word.widen x) 1 = some (.ofNat 64 (x.toNat + 1)) := by
    have := x.isLt
    rw [Word.widen_eq]
    exact Word.add?_ofNat (show x.toNat + 1 < wordSpace by omega)
  induction l generalizing cursor with
  | nil =>
      have := query.high.isLt
      unfold tile?
      rw [behind, Option.bind_eq_bind, Option.bind_some, gap?_ofNat (by omega) (by omega)]
      rfl
  | cons x rest ih =>
      obtain ⟨range, target⟩ := x
      unfold tile? tile
      cases meet : range.intersection query with
      | none => exact ih begun small
      | some part =>
          obtain ⟨low, high⟩ := Range.intersection_eq_some meet
          have ordered := BitVec.le_def.1 part.low_le_high
          have top := query.high.isLt
          dsimp only
          rw [behind, Option.bind_eq_bind, Option.bind_some]
          by_cases passed : part.high.toNat + 1 ≤ cursor
          · rw [if_pos ((Word.le_ofNat (by omega) (by omega)).2 passed), if_pos passed]
            exact ih begun small
          · rw [if_neg (mt (Word.le_ofNat (by omega) (by omega)).1 passed), if_neg passed,
              Word.widen_eq, Word.higher_ofNat (by omega) (by omega)]
            generalize hstart : max part.low.toNat cursor = start
            have front := gap?_ofNat (show cursor < wordSpace by omega)
              (show start < wordSpace by omega)
            have piece := piece?_ofNat (show range.low.toNat ≤ start by omega)
              (show start < seqSpace by omega) (show start ≤ part.high.toNat + 1 by omega)
              (show part.high.toNat + 1 - start < seqSpace by omega) target.dsn target.frame
            have later := ih (show query.low.toNat ≤ part.high.toNat + 1 by omega)
              (show part.high.toNat + 1 ≤ seqSpace by omega)
            simp only [front, piece, later, Option.bind_eq_bind, Option.bind_some]
            unfold Cover.words
            rw [List.map_append]
            rfl

/-- The same for a gap at the start of the infinite mapping. -/
theorem ofGap?_eq (i : InfiniteMapping) {gap : Stretch} (pos : 0 < gap.len)
    (inSpace : gap.start + gap.len ≤ seqSpace) (short : gap.len < seqSpace) :
    Cover.ofGap? i gap.words = some (Cover.ofGap i gap).words := by
  have spaces := spaces_eq
  have base := i.ssn.isLt
  unfold Cover.ofGap? Cover.ofGap Stretch.words
  dsimp only
  rw [Word.add?_ofNat (by omega), Option.bind_eq_bind, Option.bind_some, Word.widen_eq]
  by_cases below : gap.start + gap.len ≤ i.ssn.toNat
  · rw [if_pos ((Word.le_ofNat (by omega) (by omega)).2 below), if_pos below]
    rfl
  · rw [if_neg (mt (Word.le_ofNat (by omega) (by omega)).1 below), if_neg below,
      Word.higher_ofNat (by omega) (by omega)]
    generalize hstart : max gap.start i.ssn.toNat = start
    have front := gap?_ofNat (show gap.start < wordSpace by omega) (show start < wordSpace by omega)
    have piece := piece?_ofNat (show i.ssn.toNat ≤ start by omega) (show start < seqSpace by omega)
      (show start ≤ gap.start + gap.len by omega)
      (show gap.start + gap.len - start < seqSpace by omega) i.dsn i.frame
    simp only [front, piece, Option.bind_eq_bind, Option.bind_some]
    rfl

/-! ### Solid covers -/

variable {query : Range 32} {m : SubflowMappings}

theorem Cover.solid_ofGap (i : InfiniteMapping) {gap : Stretch} (pos : 0 < gap.len) :
    (Cover.ofGap i gap).Solid := by
  unfold Cover.ofGap
  dsimp only
  split
  · exact ⟨fun _ mem => absurd mem List.not_mem_nil, fun g mem => List.mem_singleton.1 mem ▸ pos⟩
  · refine ⟨fun s mem => ?_, fun g mem => pos_of_mem_gap mem⟩
    obtain rfl := List.mem_singleton.1 mem
    show 0 < gap.start + gap.len - max gap.start i.ssn.toNat
    omega

theorem Cover.Solid.extend {c : Cover} (h : c.Solid) (i : InfiniteMapping) : (c.extend i).Solid := by
  have filled : ∀ part ∈ c.gaps.map (Cover.ofGap i), part.Solid := by
    intro part mem
    obtain ⟨gap, there, rfl⟩ := List.mem_map.1 mem
    exact Cover.solid_ofGap i (h.gaps gap there)
  constructor
  · intro s mem
    rcases List.mem_append.1 ((List.mergeSort_perm _ _).mem_iff.1 mem) with old | new
    · exact h.found s old
    · obtain ⟨part, there, mem⟩ := List.mem_flatMap.1 new
      exact (filled part there).found s mem
  · intro g mem
    obtain ⟨part, there, mem⟩ := List.mem_flatMap.1 mem
    exact (filled part there).gaps g mem

theorem solid_cover (wf : m.tree.WellFormed) {ssn : Seq} {len : Nat}
    (asked : Range.ofLength ssn len = .ok query) : (m.cover ssn len).Solid := by
  obtain ⟨pos, low, -⟩ := Range.ofLength_eq_ok asked
  have begun : query.low.toNat ≤ ssn.toNat := Nat.le_of_eq (congrArg BitVec.toNat low)
  have solid := (hits_findAll wf query).solid_tile begun
  unfold cover
  rw [if_neg (Nat.ne_of_gt pos), asked]
  dsimp only
  cases m.infinite with
  | none => exact solid
  | some i => exact solid.extend i

/-! ### Stretches -/

/-- A gap that is not empty lies in the stretch, if its positions do. -/
theorem Cover.gap_le {c : Cover} (solid : c.Solid) {start len : Nat}
    (inside : ∀ p ∈ c.gaps.flatMap Stretch.positions, p ∈ List.range' start len) {g : Stretch}
    (mem : g ∈ c.gaps) : start ≤ g.start ∧ g.start + g.len ≤ start + len := by
  have pos := solid.gaps g mem
  have first := List.mem_range'_1.1 (inside g.start
    (List.mem_flatMap.2 ⟨g, mem, List.mem_range'_1.2 (by omega)⟩))
  have last := List.mem_range'_1.1 (inside (g.start + (g.len - 1))
    (List.mem_flatMap.2 ⟨g, mem, List.mem_range'_1.2 (by omega)⟩))
  omega

/-- Gaps of a stretch are narrow. -/
theorem Cover.narrow?_words {c : Cover} (solid : c.Solid) {start len : Nat}
    (inside : ∀ p ∈ c.gaps.flatMap Stretch.positions, p ∈ List.range' start len)
    (fits : start + len ≤ seqSpace) (short : len < seqSpace) : c.words.narrow? = some c := by
  have spaces := spaces_eq
  have narrow : (c.gaps.map Stretch.words).mapM narrowGap? = some (c.gaps.map id) :=
    mapM_map_eq_some fun g mem => by
      have := Cover.gap_le solid inside mem
      have := solid.gaps g mem
      exact narrowGap?_words (by omega) (by omega)
  unfold Cover.words WordCover.narrow?
  rw [narrow, List.map_id]
  rfl

/-- Filling gaps of a stretch loses no bits. -/
theorem Cover.extend?_words {c : Cover} (solid : c.Solid) {start len : Nat}
    (inside : ∀ p ∈ c.gaps.flatMap Stretch.positions, p ∈ List.range' start len)
    (fits : start + len ≤ seqSpace) (short : len < seqSpace) (i : InfiniteMapping) :
    c.words.extend? i = some (c.extend i).words := by
  have filled : (c.gaps.map Stretch.words).mapM (Cover.ofGap? i) =
      some (c.gaps.map fun g => (Cover.ofGap i g).words) :=
    mapM_map_eq_some fun g mem => by
      have := Cover.gap_le solid inside mem
      exact ofGap?_eq i (solid.gaps g mem) (by omega) (by omega)
  unfold Cover.words WordCover.extend? Cover.extend
  dsimp only
  rw [filled, Option.bind_eq_bind, Option.bind_some, List.flatMap_map, List.flatMap_map,
    List.flatMap_map, List.flatMap_map, List.map_flatMap]
  rfl

/-- **Placing a stretch loses no bits**, if it ends inside the sequence space. -/
theorem place?_eq_some (wf : m.tree.WellFormed) {ssn : Seq} {len : BitVec 32}
    (fits : ssn.toNat + len.toNat ≤ seqSpace) (frame : Nat) :
    m.place? ssn len frame = some (m.place ssn len.toNat frame) := by
  have cover : m.cover? ssn len = some (m.cover ssn len.toNat) := by
    unfold cover?
    by_cases zero : len = 0
    · subst zero
      rfl
    · have pos : 0 < len.toNat := Nat.pos_of_ne_zero fun h => zero (BitVec.eq_of_toNat_eq h)
      obtain ⟨query, asked⟩ := exists_range pos fits
      obtain ⟨-, low, high⟩ := Range.ofLength_eq_ok asked
      have short : len.toNat < seqSpace := len.isLt
      have begun : query.low.toNat ≤ ssn.toNat := Nat.le_of_eq (congrArg BitVec.toNat low)
      have tiled : tile? query (Word.widen ssn) (m.tree.findAll query) =
          some (tile query ssn.toNat (m.tree.findAll query)).words := by
        rw [Word.widen_eq]
        exact tile?_eq (by rw [low]; omega) begun (by omega)
      have whole : query.high.toNat + 1 - ssn.toNat = len.toNat := by omega
      have solid := (hits_findAll wf query).solid_tile begun
      have sorted : (tile query ssn.toNat (m.tree.findAll query)).Puts (fun b => b) _ _ :=
        tile_puts (m.tree.pairwise_findAll query) begun
      rw [whole] at sorted
      have inside : ∀ p ∈ (tile query ssn.toNat (m.tree.findAll query)).gaps.flatMap
          Stretch.positions, p ∈ List.range' ssn.toNat len.toNat :=
        fun p mem => (sorted.mem_left.1 mem).1
      rw [if_neg zero, cover.eq_def, if_neg (Nat.ne_of_gt pos), asked]
      dsimp only
      rw [tiled, Option.bind_eq_bind, Option.bind_some]
      cases infinite : m.infinite with
      | none => exact Cover.narrow?_words solid inside fits short
      | some i =>
          have extended := sorted.extend (fun p mem => by
            have := List.mem_range'_1.1 mem
            omega) i
          dsimp only
          rw [Cover.extend?_words solid inside fits short, Option.bind_some]
          exact Cover.narrow?_words (solid.extend i) (fun p mem => (extended.mem_left.1 mem).1) fits
            short
  rw [place?, cover]
  rfl

end SubflowMappings

end TcpCapture
