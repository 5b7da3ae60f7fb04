import TcpCapture.Error

/-!
# Closed ranges

Ranges of unsigned counters.  Unlike sequence numbers their ends are compared as plain numbers, so a
range never wraps; both ends belong to it, and it is never empty.
-/

namespace TcpCapture

/-- The points from `low` to `high`, both included. -/
structure Range (w : Nat) where
  low : BitVec w
  high : BitVec w
  low_le_high : low ≤ high
deriving DecidableEq

namespace Range

variable {w : Nat}

/-- The range with these ends, unless they are the wrong way round. -/
def ofEnds (low high : BitVec w) : Except CaptureError (Range w) :=
  if h : low ≤ high then .ok ⟨low, high, h⟩
  else .error (.invertedRange low.toNat high.toNat)

/-- The `length` points from `start` on, unless there are none or the last one does not fit. -/
def ofLength (start : BitVec w) (length : Nat) : Except CaptureError (Range w) :=
  if h : 0 < length ∧ start.toNat + (length - 1) ≤ (BitVec.allOnes w).toNat then
    .ok ⟨start, .ofNat w (start.toNat + (length - 1)), by
      have hfit := Nat.lt_of_le_of_lt h.2 (BitVec.allOnes w).isLt
      rw [BitVec.le_def, BitVec.toNat_ofNat, Nat.mod_eq_of_lt hfit]
      exact Nat.le_add_right _ _⟩
  else .error (.mappingOverflow start.toNat length)

/-- The range of one point. -/
def point (p : BitVec w) : Range w := ⟨p, p, BitVec.le_refl p⟩

/-- The ranges share a point. -/
def overlaps (r s : Range w) : Bool := decide (r.low ≤ s.high) && decide (s.low ≤ r.high)

/-- The point belongs to the range. -/
def contains (r : Range w) (p : BitVec w) : Bool := decide (r.low ≤ p) && decide (p ≤ r.high)

/-- The higher of two points. -/
def higher (x y : BitVec w) : BitVec w := if x ≤ y then y else x

/-- The lower of two points. -/
def lower (x y : BitVec w) : BitVec w := if x ≤ y then x else y

/-- The points two ranges share, if any. -/
def intersection (r s : Range w) : Option (Range w) :=
  if h : r.low ≤ s.high ∧ s.low ≤ r.high then
    some ⟨higher r.low s.low, lower r.high s.high, by
      have hr := r.low_le_high
      have hs := s.low_le_high
      unfold higher lower
      split <;> split <;> first | exact hr | exact hs | exact h.1 | exact h.2⟩
  else none

/-- Both ends in brackets. -/
def text (r : Range w) : String := s!"[{r.low.toNat}, {r.high.toNat}]"

/-! ### Equations -/

@[simp] theorem overlaps_iff (r s : Range w) :
    r.overlaps s = true ↔ r.low ≤ s.high ∧ s.low ≤ r.high := by
  simp [overlaps]

@[simp] theorem contains_iff (r : Range w) (p : BitVec w) :
    r.contains p = true ↔ r.low ≤ p ∧ p ≤ r.high := by
  simp [contains]

theorem toNat_higher (x y : BitVec w) : (higher x y).toNat = max x.toNat y.toNat := by
  unfold higher
  split <;> rename_i h <;> rw [BitVec.le_def] at h <;> omega

theorem toNat_lower (x y : BitVec w) : (lower x y).toNat = min x.toNat y.toNat := by
  unfold lower
  split <;> rename_i h <;> rw [BitVec.le_def] at h <;> omega

theorem intersection_eq_none_iff {r s : Range w} :
    r.intersection s = none ↔ r.overlaps s = false := by
  rw [← Bool.not_eq_true, overlaps_iff]
  unfold intersection
  split
  · rename_i meet
    simp [meet]
  · rename_i apart
    simp [apart]

/-- The shared points reach from the higher low end to the lower high end. -/
theorem intersection_eq_some {r s part : Range w} (h : r.intersection s = some part) :
    part.low.toNat = max r.low.toNat s.low.toNat ∧
      part.high.toNat = min r.high.toNat s.high.toNat := by
  unfold intersection at h
  split at h
  · obtain rfl := Option.some.inj h
    exact ⟨toNat_higher _ _, toNat_lower _ _⟩
  · cases h

/-- The range of `length` points starts where it should and ends `length` points on. -/
theorem ofLength_eq_ok {start : BitVec w} {length : Nat} {r : Range w}
    (h : ofLength start length = .ok r) :
    0 < length ∧ r.low = start ∧ r.high.toNat + 1 = start.toNat + length := by
  unfold ofLength at h
  split at h
  · rename_i fits
    obtain rfl := Except.ok.inj h
    have bound := Nat.lt_of_le_of_lt fits.2 (BitVec.allOnes w).isLt
    refine ⟨fits.1, rfl, ?_⟩
    rw [BitVec.toNat_ofNat, Nat.mod_eq_of_lt bound]
    omega
  · cases h

/-- There is such a range if it is not empty and its last point fits. -/
theorem exists_ofLength {start : BitVec w} {length : Nat} (pos : 0 < length)
    (fits : start.toNat + (length - 1) ≤ (BitVec.allOnes w).toNat) :
    ∃ r, ofLength start length = .ok r := by
  unfold ofLength
  rw [dif_pos ⟨pos, fits⟩]
  exact ⟨_, rfl⟩

/-- A point belongs to the range when it lies less than `length` points after the start. -/
theorem contains_of_ofLength {start : BitVec w} {length : Nat} {r : Range w}
    (h : ofLength start length = .ok r) (p : BitVec w) :
    r.contains p = decide ((p - start).toNat < length) := by
  obtain ⟨-, low, high⟩ := ofLength_eq_ok h
  have top := r.high.isLt
  have distance : start.toNat ≤ p.toNat ∧ (p - start).toNat = p.toNat - start.toNat ∨
      p.toNat < start.toNat ∧ length ≤ (p - start).toNat := by
    by_cases le : start ≤ p
    · exact Or.inl ⟨le, BitVec.toNat_sub_of_le le⟩
    · have lt := BitVec.not_le.1 le
      refine Or.inr ⟨lt, ?_⟩
      rw [BitVec.toNat_sub_of_lt lt]
      omega
  unfold contains
  rw [low, ← Bool.decide_and, decide_eq_decide, BitVec.le_def, BitVec.le_def]
  omega

/-- Two ranges overlap exactly when some point belongs to both. -/
theorem overlaps_iff_exists (r s : Range w) :
    r.overlaps s = true ↔ ∃ p, r.contains p = true ∧ s.contains p = true := by
  simp only [overlaps_iff, contains_iff]
  constructor
  · rintro ⟨h₁, h₂⟩
    by_cases h : r.low ≤ s.low
    · exact ⟨s.low, ⟨h, h₂⟩, BitVec.le_refl _, s.low_le_high⟩
    · have h' : s.low ≤ r.low := (BitVec.le_total r.low s.low).resolve_left h
      exact ⟨r.low, ⟨BitVec.le_refl _, r.low_le_high⟩, h', h₁⟩
  · rintro ⟨p, ⟨h₁, h₂⟩, h₃, h₄⟩
    exact ⟨BitVec.le_trans h₁ h₄, BitVec.le_trans h₃ h₂⟩

end Range

end TcpCapture
