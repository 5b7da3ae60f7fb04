import TcpCapture.Proofs.HalfTurn

/-!
# Positions on the circle

A stretch of less than half a turn is laid out from an origin, and its positions counted from there.
On such a stretch the half-turn comparisons are the order of the counts, wherever the origin is and
whether or not the numbers wrap.
-/

namespace TcpCapture

/-- A number is after another one if it lies less than half a turn ahead. -/
theorem after_iff {x y : Seq} :
    after x y = true ↔ 0 < (x - y).toNat ∧ (x - y).toNat < 0x80000000 := by
  unfold after before
  rw [Bool.and_eq_true, bne_iff_ne, Bool.not_eq_true', BitVec.msb_eq_decide, decide_eq_false_iff_not,
    Nat.not_le]
  refine and_congr_left fun _ => ?_
  rw [ne_eq, ← BitVec.toNat_inj]
  bv_omega

variable (origin : Seq) {m n : Nat}

/-- Positions up to half a turn apart are compared as their counts are. -/
theorem before_advance (above : m < n + 0x80000000) (below : n ≤ m + 0x80000000) :
    before (advance origin m) (advance origin n) = decide (m < n) := by
  rw [Bool.eq_iff_iff, decide_eq_true_iff]
  exact before_advance_iff origin (by omega) (by omega)

theorem advance_inj (above : m < n + 0x100000000) (below : n < m + 0x100000000) :
    advance origin m = advance origin n ↔ m = n := by
  rw [advance, advance, BitVec.add_right_inj, ← BitVec.toNat_inj, BitVec.toNat_ofNat,
    BitVec.toNat_ofNat]
  omega

theorem after_advance (above : m < n + 0x80000000) (below : n ≤ m + 0x80000000) :
    after (advance origin m) (advance origin n) = decide (n < m) := by
  have ne : (advance origin m != advance origin n) = decide (m ≠ n) := by
    rw [Bool.eq_iff_iff, bne_iff_ne, decide_eq_true_iff, ne_eq, ne_eq,
      advance_inj origin (by omega) (by omega)]
  rw [after, ne, before_advance origin above below, ← decide_not, ← Bool.decide_and,
    decide_eq_decide]
  omega

theorem atOrBefore_advance (above : m < n + 0x80000000) (below : n ≤ m + 0x80000000) :
    atOrBefore (advance origin m) (advance origin n) = decide (m ≤ n) := by
  rw [atOrBefore, after_advance origin above below, ← decide_not, decide_eq_decide]
  omega

/-- The distance between two positions is the difference of their counts. -/
theorem toNat_advance_sub (ordered : n ≤ m) (near : m < n + 0x100000000) :
    (advance origin m - advance origin n).toNat = m - n :=
  toNat_sub_advance origin ordered (by omega)

theorem toNat_advance_sub_self (small : n < 0x100000000) :
    (advance origin n - origin).toNat = n :=
  toNat_sub_base origin (by omega)

end TcpCapture
