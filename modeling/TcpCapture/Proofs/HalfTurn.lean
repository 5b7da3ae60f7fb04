import Mathlib.Algebra.Group.Nat.Defs
import Mathlib.Order.Nat
import Mathlib.Order.RelIso.Basic
import TcpCapture.Sequence

/-!
# Half a turn of the circle

Sequence numbers go round in a circle, where no order can be.  On every half of it, though, wherever that
starts, the comparisons are those of the counts from its start.

## Main definitions

* `ComparedOnce` — the comparisons of two numbers say one thing
* `SeesDifference` — a shift of both numbers goes unnoticed
* `HalfTurn` — the numbers of half a turn, from a base on
* `HalfTurn.offset` — how far they are from the base, which embeds them in the natural numbers
* `OrderedFrom` — half a turn from a base is in order, and not a number more

**Both edges.**  Two numbers exactly half a turn apart are each before the other, and no others are.  So
`2 ^ w` numbers in a row are in order, where `2 ^ (w + 1)` make up the circle, and `2 ^ w + 1` are not.
-/

namespace TcpCapture

/-- A number is as many positions after another one as their distance says. -/
theorem advance_toNat_sub {w : Nat} (x y : BitVec w) : advance x (y - x).toNat = y := by
  rw [advance, BitVec.ofNat_toNat, BitVec.setWidth_eq, BitVec.add_comm, BitVec.sub_add_cancel]

section

variable {w : Nat} (x y c base : BitVec (w + 1))

/-! ### Distances -/

theorem turn_eq (w : Nat) : 2 ^ (w + 1) = 2 ^ w + 2 ^ w := by
  rw [Nat.pow_succ, Nat.mul_two]

/-- A number is before another one if the way back to it is half a turn at least. -/
theorem before_iff_le : before x y = true ↔ 2 ^ w ≤ (x - y).toNat := by
  rw [before, BitVec.msb_eq_decide, decide_eq_true_iff, Nat.add_sub_cancel]

/-- The ways forth and back make up a turn. -/
theorem toNat_sub_add_toNat_sub (ne : x ≠ y) : (x - y).toNat + (y - x).toNat = 2 ^ (w + 1) := by
  rw [ne_eq, ← BitVec.toNat_inj] at ne
  have boundX := x.isLt
  have boundY := y.isLt
  rcases Nat.lt_or_gt_of_ne ne with less | greater
  · rw [BitVec.toNat_sub_of_lt less, BitVec.toNat_sub_of_le (Nat.le_of_lt less)]
    omega
  · rw [BitVec.toNat_sub_of_lt greater, BitVec.toNat_sub_of_le (Nat.le_of_lt greater)]
    omega

theorem toNat_intMin (w : Nat) : (BitVec.intMin (w + 1)).toNat = 2 ^ w :=
  BitVec.toNat_intMin_of_pos (Nat.succ_pos w)

/-- **Only numbers half a turn apart are each before the other.** -/
theorem before_and_before_iff :
    before x y = true ∧ before y x = true ↔ x - y = BitVec.intMin (w + 1) := by
  have turn := turn_eq w
  rw [before_iff_le, before_iff_le, ← BitVec.toNat_inj, toNat_intMin]
  by_cases same : x = y
  · subst same
    have pos := Nat.two_pow_pos w
    rw [BitVec.sub_self, BitVec.toNat_zero]
    omega
  · have ways := toNat_sub_add_toNat_sub x y same
    omega

/-! ### One comparison -/

/-- Exactly one of *before*, *equal* and *after* holds, and all other comparisons say which. -/
structure ComparedOnce : Prop where
  exactlyOne :
    before x y = true ∧ x ≠ y ∧ after x y = false ∨
      before x y = false ∧ x = y ∧ after x y = false ∨
        before x y = false ∧ x ≠ y ∧ after x y = true
  lt_iff : compareSeq x y = .lt ↔ before x y = true
  eq_iff : compareSeq x y = .eq ↔ x = y
  gt_iff : compareSeq x y = .gt ↔ after x y = true
  atOrBefore_iff : atOrBefore x y = true ↔ before x y = true ∨ x = y
  atOrAfter_iff : atOrAfter x y = true ↔ after x y = true ∨ x = y
  later_eq : later x y = if compareSeq x y = .gt then x else y
  /-- Neither number is after the later one. -/
  later_bounds : atOrBefore x (later x y) = true ∧ atOrBefore y (later x y) = true
  both_iff : before x y = true ∧ before y x = true ↔ x - y = BitVec.intMin (w + 1)

theorem comparison_cases :
    before x y = true ∧ x ≠ y ∧ after x y = false ∨
      before x y = false ∧ x = y ∧ after x y = false ∨
        before x y = false ∧ x ≠ y ∧ after x y = true := by
  by_cases same : x = y
  · subst same
    exact Or.inr (Or.inl ⟨before_self x, rfl, after_self x⟩)
  · have apart : (x != y) = true := bne_iff_ne.2 same
    unfold after
    rw [apart, Bool.true_and]
    cases ahead : before x y with
    | true => exact Or.inl ⟨rfl, same, rfl⟩
    | false => exact Or.inr (Or.inr ⟨rfl, same, rfl⟩)

/-- What a number is after is before it. -/
theorem before_of_after (behind : after x y = true) : before y x = true := by
  rcases comparison_cases x y with ⟨-, -, not⟩ | ⟨-, -, not⟩ | ⟨ahead, ne, -⟩
  · cases not.symm.trans behind
  · cases not.symm.trans behind
  · have ways := toNat_sub_add_toNat_sub x y ne
    have turn := turn_eq w
    have short : ¬ 2 ^ w ≤ (x - y).toNat := by
      rw [← before_iff_le, ahead]
      exact Bool.false_ne_true
    rw [before_iff_le]
    omega

theorem comparedOnce : ComparedOnce x y := by
  have both := before_and_before_iff x y
  rcases comparison_cases x y with ⟨ahead, ne, not⟩ | ⟨not, same, not'⟩ | ⟨not, ne, behind⟩
  · constructor
    case exactlyOne => exact Or.inl ⟨ahead, ne, not⟩
    case both_iff => exact both
    all_goals simp [compareSeq, atOrBefore, atOrAfter, later, ahead, ne, not]
  · subst same
    constructor
    case exactlyOne => exact Or.inr (Or.inl ⟨not, rfl, not'⟩)
    case both_iff => exact both
    all_goals simp [compareSeq, atOrBefore, atOrAfter, later]
  · have back : after y x = false := by
      unfold after
      rw [before_of_after x y behind, Bool.not_true, Bool.and_false]
    constructor
    case exactlyOne => exact Or.inr (Or.inr ⟨not, ne, behind⟩)
    case both_iff => exact both
    all_goals simp [compareSeq, atOrBefore, atOrAfter, later, not, ne, behind, back]

/-! ### Shifts -/

/-- A shift of both numbers changes no comparison, and shifts the later one. -/
structure SeesDifference : Prop where
  before_shift : before (x + c) (y + c) = before x y
  after_shift : after (x + c) (y + c) = after x y
  compareSeq_shift : compareSeq (x + c) (y + c) = compareSeq x y
  later_shift : later (x + c) (y + c) = later x y + c

theorem seesDifference : SeesDifference x y c := by
  have before_shift := before_add_right x y c
  have same : x + c = y + c ↔ x = y := BitVec.add_left_inj c
  have apart : (x + c != y + c) = (x != y) := by
    rw [Bool.eq_iff_iff, bne_iff_ne, bne_iff_ne, ne_eq, ne_eq, same]
  have after_shift : after (x + c) (y + c) = after x y := by
    unfold after
    rw [apart, before_shift]
  refine ⟨before_shift, after_shift, ?_, ?_⟩
  · unfold compareSeq
    rw [before_shift]
    exact ite_congr (propext same) (fun _ => rfl) fun _ => rfl
  · unfold later
    rw [after_shift]
    exact (apply_ite (· + c) _ _ _).symm

/-! ### Half a turn from a base -/

theorem sub_advance_eq {m n : Nat} (ordered : n ≤ m) :
    advance base m - advance base n = BitVec.ofNat (w + 1) (m - n) := by
  obtain ⟨k, rfl⟩ := Nat.exists_eq_add_of_le ordered
  rw [← advance_advance, Nat.add_sub_cancel_left]
  unfold advance
  rw [BitVec.add_comm, BitVec.add_sub_cancel]

/-- The distance between two positions is the difference of their counts. -/
theorem toNat_sub_advance {m n : Nat} (ordered : n ≤ m) (near : m < n + 2 ^ (w + 1)) :
    (advance base m - advance base n).toNat = m - n := by
  rw [sub_advance_eq base ordered, BitVec.toNat_ofNat, Nat.mod_eq_of_lt (by omega)]

theorem toNat_sub_base {d : Nat} (near : d < 2 ^ (w + 1)) : (advance base d - base).toNat = d := by
  have forth := toNat_sub_advance base (Nat.zero_le d) (by omega)
  rwa [advance_zero, Nat.sub_zero] at forth

/-- **Positions up to half a turn apart are compared as their counts are.** -/
theorem before_advance_iff {m n : Nat} (above : m < n + 2 ^ w) (below : n ≤ m + 2 ^ w) :
    before (advance base m) (advance base n) = true ↔ m < n := by
  have turn := turn_eq w
  have pos := Nat.two_pow_pos w
  rw [before_iff_le]
  rcases Nat.lt_or_ge m n with ahead | behind
  · have forth := toNat_sub_advance base (Nat.le_of_lt ahead) (by omega)
    have ne : advance base m ≠ advance base n := by
      intro same
      rw [same, BitVec.sub_self, BitVec.toNat_zero] at forth
      omega
    have ways := toNat_sub_add_toNat_sub _ _ ne
    rw [forth] at ways
    omega
  · rw [toNat_sub_advance base behind (by omega)]
    omega

/-- The numbers of half a turn, from the base on. -/
abbrev HalfTurn : Type := {x : BitVec (w + 1) // (x - base).toNat < 2 ^ w}

/-- How far a number is from the base.  On half a turn that is compared as the numbers are. -/
def HalfTurn.offset :
    (fun x y : HalfTurn base => before x.1 y.1 = true) ↪r ((· < ·) : Nat → Nat → Prop) where
  toFun x := (x.1 - base).toNat
  inj' x y same := Subtype.ext ((BitVec.sub_left_inj base).1 (BitVec.eq_of_toNat_eq same))
  map_rel_iff' {x y} := by
    have nearX := x.2
    have nearY := y.2
    have counted := before_advance_iff base (m := (x.1 - base).toNat) (n := (y.1 - base).toNat)
      (by omega) (by omega)
    rw [advance_toNat_sub, advance_toNat_sub] at counted
    exact counted.symm

theorem advance_inj_iff {m n : Nat} (above : m < n + 2 ^ w) (below : n < m + 2 ^ w) :
    advance base m = advance base n ↔ m = n := by
  refine ⟨fun same => ?_, fun same => by rw [same]⟩
  have forth := before_advance_iff base above (Nat.le_of_lt below)
  have back := before_advance_iff base below (Nat.le_of_lt above)
  rw [same, before_self] at forth back
  have notLess : ¬ m < n := fun less => Bool.false_ne_true (forth.2 less)
  have notGreater : ¬ n < m := fun greater => Bool.false_ne_true (back.2 greater)
  omega

theorem compareSeq_advance {m n : Nat} (above : m < n + 2 ^ w) (below : n < m + 2 ^ w) :
    compareSeq (advance base m) (advance base n) = compare m n := by
  have same := advance_inj_iff base above below
  have ahead := before_advance_iff base above (Nat.le_of_lt below)
  unfold compareSeq
  rcases Nat.lt_trichotomy m n with less | rfl | greater
  · rw [if_neg (by rw [same]; omega), if_pos (ahead.2 less), Nat.compare_eq_lt.2 less]
  · rw [if_pos rfl, Nat.compare_eq_eq.2 rfl]
  · rw [if_neg (by rw [same]; omega), if_neg (by rw [ahead]; omega), Nat.compare_eq_gt.2 greater]

theorem later_advance {m n : Nat} (above : m < n + 2 ^ w) (below : n < m + 2 ^ w) :
    later (advance base m) (advance base n) = advance base (max m n) := by
  rw [(comparedOnce _ _).later_eq, compareSeq_advance base above below]
  by_cases greater : n < m
  · rw [if_pos (Nat.compare_eq_gt.2 greater), Nat.max_eq_left (Nat.le_of_lt greater)]
  · rw [if_neg (mt Nat.compare_eq_gt.1 greater), Nat.max_eq_right (Nat.le_of_not_lt greater)]

/-- The numbers half a turn from a base are in order, as their counts from there are, and the first one
that no longer belongs to them is not. -/
structure OrderedFrom : Prop where
  before_iff : ∀ d e, d < 2 ^ w → e < 2 ^ w →
    (before (advance base d) (advance base e) = true ↔ d < e)
  compareSeq_eq : ∀ d e, d < 2 ^ w → e < 2 ^ w →
    compareSeq (advance base d) (advance base e) = compare d e
  later_eq : ∀ d e, d < 2 ^ w → e < 2 ^ w →
    later (advance base d) (advance base e) = advance base (max d e)
  mem_iff : ∀ x, (x - base).toNat < 2 ^ w ↔ ∃ d < 2 ^ w, x = advance base d
  strictTotal : IsStrictTotalOrder (HalfTurn base) fun x y => before x.1 y.1 = true
  edge : before base (advance base (2 ^ w)) = true ∧ before (advance base (2 ^ w)) base = true

theorem orderedFrom : OrderedFrom base where
  before_iff d e boundD boundE := before_advance_iff base (by omega) (by omega)
  compareSeq_eq d e boundD boundE := compareSeq_advance base (by omega) (by omega)
  later_eq d e boundD boundE := later_advance base (by omega) (by omega)
  mem_iff x := by
    refine ⟨fun near => ⟨_, near, (advance_toNat_sub base x).symm⟩, ?_⟩
    rintro ⟨d, bound, rfl⟩
    have turn := turn_eq w
    rwa [toNat_sub_base base (by omega)]
  strictTotal := (HalfTurn.offset base).isStrictTotalOrder
  edge := by
    have turn := turn_eq w
    have pos := Nat.two_pow_pos w
    refine ((before_and_before_iff _ base).2 (BitVec.eq_of_toNat_eq ?_)).symm
    rw [toNat_sub_base base (by omega), toNat_intMin]

end

/-- **Half a turn of the circle is in strict order.**  In every width, and so for sequence numbers and for
data sequence numbers: two numbers compare in exactly one way, a shift of both changes nothing, and half a
turn from any base the comparisons are those of the counts. -/
theorem halfTurn_strictly_ordered (w : Nat) :
    (∀ x y : BitVec (w + 1), ComparedOnce x y) ∧
      (∀ x y c : BitVec (w + 1), SeesDifference x y c) ∧
      ∀ base : BitVec (w + 1), OrderedFrom base :=
  ⟨comparedOnce, seesDifference, orderedFrom⟩

end TcpCapture
