import TcpCapture.Proofs.Flow.Exchange

/-!
# What keep-alives carry

A keep-alive sends one byte that lies just in front of the next position, and is not passed on as data.
Nothing is lost by that if the byte was carried before.  The next position, however, is moved by bare
segments as well, acknowledgments and resets that occupy no sequence number, and when such a segment is
captured first, the byte in front of it is still to come.

## Main definitions

* `KeepAlivesRepeat` — every byte a keep-alive carries was carried before
* `NothingOvertaken` — no bare segment moves the position past a number that was not carried
* `keepAlivesRepeat_iff` — the first holds all the time exactly if the second does
* `Sighting.inFront` — the byte in front of a segment, which tells the two apart
-/

namespace TcpCapture

/-- Whenever a segment of one byte is taken for a keep-alive, an earlier segment carried that byte's
number in the same direction. -/
def KeepAlivesRepeat (xs : List Sighting) : Prop :=
  ∀ pre x, pre ++ [x] <+: xs → x.segment.payloadLen = 1 →
    (x.findings (exchanged pre)).keepAlive = true → Carried pre x.direction x.segment.seq

/-- Whenever a segment that occupies no number moves the position, the number in front of it was carried
before, if that is in the window at all. -/
def NothingOvertaken (origin : Direction → Seq) (xs : List Sighting) : Prop :=
  ∀ pre y, pre ++ [y] <+: xs → y.segment.sequenceLen = 0 →
    ((exchanged pre).get y.direction).nextSeq.all (after y.segment.seq) = true →
      y.segment.seq ≠ origin y.direction → Carried pre y.direction (y.segment.seq - 1)

/-- A single byte right in front of a segment, of the same direction. -/
def Sighting.inFront (x : Sighting) : Sighting :=
  { x with segment := { x.segment with seq := x.segment.seq - 1, flags := {}, payload := [0] } }

/-- A bare segment past the position moves it to where it starts. -/
theorem Sighting.nextSeq_settled_of_bare {x : Sighting} {flows : Duplex Flow}
    (bare : x.segment.sequenceLen = 0)
    (past : (flows.get x.direction).nextSeq.all (after x.segment.seq) = true) :
    ((x.settled flows).get x.direction).nextSeq = some x.segment.seq := by
  have empty : x.segment.payloadLen = 0 := by
    rw [Segment.sequenceLen] at bare
    omega
  have probe : Classified.isZeroWindowProbe (x.sender flows) (x.peer flows) x.segment = false := by
    rw [Classified.isZeroWindowProbe, empty]
    rfl
  -- a keep-alive lies in front of the position
  have keepAlive : Classified.isKeepAlive (x.sender flows) x.segment = false := by
    refine Bool.eq_false_iff.2 fun alive => ?_
    have front : (flows.get x.direction).nextSeq = some (x.segment.seq + 1) :=
      eq_of_beq (Bool.and_eq_true_iff.1 alive).2
    rw [front, Option.all_some, after_iff] at past
    bv_omega
  have moves : Classified.moves (x.sender flows) (x.peer flows) x.segment = true := by
    rw [Classified.moves, probe, keepAlive, x.segment.endSeq_of_bare bare]
    exact past
  rw [x.nextSeq_settled, if_pos moves, x.segment.endSeq_of_bare bare]

/-- A single byte in front of the position is taken for a keep-alive. -/
theorem Sighting.keepAlive_of_front {x : Sighting} {flows : Duplex Flow}
    (single : x.segment.payloadLen = 1) (plain : x.segment.flags.hasControl = false)
    (front : (flows.get x.direction).nextSeq = some (x.segment.seq + 1)) :
    (x.findings flows).keepAlive = true := by
  have position : (x.sender flows).nextSeq = some (x.segment.seq + 1) := front
  have elsewhere : (some (x.segment.seq + 1) == some x.segment.seq) = false := by
    rw [beq_eq_false_iff_ne, ne_eq, Option.some_inj]
    bv_omega
  unfold findings judged
  rw [keepAlive_classify, Classified.isZeroWindowProbe, Classified.isKeepAlive, position, elsewhere,
    single, plain]
  simp

/-- A keep-alive lies in front of the position. -/
theorem Sighting.front_of_keepAlive {x : Sighting} {flows : Duplex Flow}
    (alive : (x.findings flows).keepAlive = true) :
    (flows.get x.direction).nextSeq = some (x.segment.seq + 1) := by
  unfold findings judged at alive
  rw [keepAlive_classify, Bool.and_eq_true] at alive
  exact eq_of_beq (Bool.and_eq_true_iff.1 alive.2).2

variable {origin : Direction → Seq} {xs : List Sighting}

/-- The number in front of the position was carried, unless it lies in front of the window. -/
theorem NothingOvertaken.carried (h : NothingOvertaken origin xs) (d : Direction) {n : Seq}
    (position : ((exchanged xs).get d).nextSeq = some n) (inside : n ≠ origin d) :
    Carried xs d (n - 1) := by
  induction xs using List.reverseRecOn with
  | nil => cases d <;> cases position
  | append_singleton xs x ih =>
      have earlier : NothingOvertaken origin xs := fun pre y reached =>
        h pre y (reached.trans (List.prefix_append _ _))
      rw [carried_concat]
      rw [exchanged_concat] at position
      by_cases own : d = x.direction
      · subst own
        by_cases bare : x.segment.sequenceLen = 0
        · by_cases past : ((exchanged xs).get x.direction).nextSeq.all (after x.segment.seq) = true
          · rw [Sighting.nextSeq_settled_of_bare bare past, Option.some_inj] at position
            subst position
            exact Or.inl (h xs x (List.prefix_refl _) bare past inside)
          · have still : Classified.moves (x.sender (exchanged xs)) (x.peer (exchanged xs))
                x.segment = false := by
              refine Bool.eq_false_iff.2 fun moves => past ?_
              rw [← x.segment.endSeq_of_bare bare]
              exact (Bool.and_eq_true_iff.1 moves).2
            rw [x.nextSeq_settled, still] at position
            exact Or.inl (ih earlier position)
        · rw [x.nextSeq_settled] at position
          split at position
          · rw [Option.some_inj] at position
            subst position
            exact Or.inr ⟨rfl, Segment.occupies_last bare⟩
          · exact Or.inl (ih earlier position)
      · obtain rfl := Direction.eq_opposite_of_ne own
        rw [x.nextSeq_settled_opposite] at position
        exact Or.inl (ih earlier position)

theorem InWindow.inFront {x : Sighting} (near : InWindow origin (xs ++ [x]))
    (inside : x.segment.seq ≠ origin x.direction) : InWindow origin (xs ++ [x] ++ [x.inFront]) := by
  intro y mem
  rcases List.mem_append.1 mem with mem | mem
  · exact near y mem
  · obtain rfl := List.mem_singleton.1 mem
    have own := (near x List.mem_concat_self).1
    refine ⟨?_, fun ack => absurd ack Bool.false_ne_true⟩
    show (x.segment.seq - 1 - origin x.direction).toNat + 1 < _
    bv_omega

/-- **Keep-alives carry nothing new, whatever comes at any time of an exchange, if and only if no bare
segment of it moves the position past a number that was not carried.** -/
theorem keepAlivesRepeat_iff (near : InWindow origin xs) :
    (∀ pre, pre <+: xs → ∀ x, InWindow origin (pre ++ [x]) → KeepAlivesRepeat (pre ++ [x])) ↔
      NothingOvertaken origin xs := by
  constructor
  · intro all pre y reached bare past inside
    -- the byte in front of the bare segment may come next
    have position : ((exchanged (pre ++ [y])).get y.inFront.direction).nextSeq =
        some (y.inFront.segment.seq + 1) := by
      rw [exchanged_concat]
      show ((y.settled (exchanged pre)).get y.direction).nextSeq = some (y.segment.seq - 1 + 1)
      rw [Sighting.nextSeq_settled_of_bare bare past, BitVec.sub_add_cancel]
    have carried := all (pre ++ [y]) reached y.inFront ((near.of_prefix reached).inFront inside)
      (pre ++ [y]) y.inFront (List.prefix_refl _) rfl (Sighting.keepAlive_of_front rfl rfl position)
    rcases carried_concat.1 carried with before | ⟨-, k, few, -⟩
    · exact before
    · rw [bare] at few
      exact absurd few (Nat.not_lt_zero k)
  · intro nothing pre reached x fits part y within single alive
    have front := Sighting.front_of_keepAlive alive
    have known : y ∈ pre ++ [x] := within.subset List.mem_concat_self
    have inside : y.segment.seq + 1 ≠ origin y.direction := by
      have own := (fits y known).1
      have occupied : 1 ≤ y.segment.sequenceLen := by
        rw [Segment.sequenceLen, single]
        omega
      bv_omega
    have earlier : part <+: xs := (prefix_of_concat within).trans reached
    have held : NothingOvertaken origin part := fun before z sooner =>
      nothing before z (sooner.trans earlier)
    have carried := held.carried y.direction front inside
    rwa [BitVec.add_sub_cancel] at carried

/-- Bytes 1 and 2 are carried, then a bare acknowledgment overtakes bytes 3 and 4. -/
theorem byte_overtaken :
    let segment : Segment :=
      { source := ⟨.v4 0x0a000001, 40000⟩, destination := ⟨.v4 0x0a000002, 443⟩, seq := 1 }
    let data : Sighting := { direction := .forward, segment := { segment with payload := [1, 2] } }
    let bare : Sighting :=
      { direction := .forward, segment := { segment with seq := 5, flags.ack := true } }
    InWindow (fun _ => 0) [data, bare] ∧
      ¬ ∀ pre, pre <+: [data, bare] → ∀ x, InWindow (fun _ => 0) (pre ++ [x]) →
        KeepAlivesRepeat (pre ++ [x]) := by
  intro segment data bare
  refine ⟨by decide, fun all => ?_⟩
  have nothing := (keepAlivesRepeat_iff (by decide)).1 all
  have carried := nothing [data] bare (List.prefix_refl _) rfl (by decide +kernel) (by decide)
  exact absurd carried (by decide)

/-- When byte 4 comes after them, it is taken for a keep-alive. -/
theorem not_keepAlivesRepeat : ¬ ∀ (origin : Direction → Seq) (xs : List Sighting),
    InWindow origin xs → KeepAlivesRepeat xs := by
  intro all
  let segment : Segment :=
    { source := ⟨.v4 0x0a000001, 40000⟩, destination := ⟨.v4 0x0a000002, 443⟩, seq := 1 }
  let data : Sighting := { direction := .forward, segment := { segment with payload := [1, 2] } }
  let bare : Sighting :=
    { direction := .forward, segment := { segment with seq := 5, flags.ack := true } }
  let byte : Sighting := { direction := .forward, segment := { segment with seq := 4, payload := [4] } }
  have carried := all (fun _ => 0) [data, bare, byte] (by decide) [data, bare] byte
    (List.prefix_refl _) rfl (by decide +kernel)
  exact absurd carried (by decide)

end TcpCapture
