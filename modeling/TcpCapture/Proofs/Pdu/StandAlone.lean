import TcpCapture.Proofs.Pdu.Alignment

/-!
# Segments that stand alone

Where PDUs are not collected across segments, each segment is cut by itself.  A loop goes along the payload
and asks the probe at every stop.  The answer may be any number, zero and numbers past the end among them, or
none at all.  Still every round gets ahead, and the pieces tile the segment.

## Main definitions

* `Assembler.Declares` — the probe declares a PDU at the front of some bytes that hold all of it
* `Assembler.cutAt`, `Assembler.cutFrom?` — the piece that begins at an offset, and the loop along the
  payload, if it is through within some rounds
* `Assembler.Tiles` — what is to be delivered of a segment
* `Assembler.tiles_feed` — that is what feeding a segment delivers

**Any verdicts.**  The loop never asks about the same bytes twice, since at each stop fewer are left.  So a
probe is free to answer as it likes, and need not agree with what it said before.
-/

namespace TcpCapture

namespace Assembler

variable {framing : Framing} {probe : LengthProbe} {c : Chunk}

/-- Asked about some bytes, the probe declares a PDU of `n` bytes, and they hold all of it. -/
structure Declares (framing : Framing) (probe : LengthProbe) (bytes : List UInt8) (n : Nat) : Prop where
  asked : framing.fixedLen ≤ bytes.length
  known : probe bytes = .known n
  pos : 0 < n
  held : n ≤ bytes.length

theorem wholeFront?_eq_some_iff {bytes : List UInt8} {n : Nat} :
    wholeFront? framing probe bytes = some n ↔ Declares framing probe bytes n := by
  constructor
  · intro whole
    obtain ⟨asked, known⟩ := wholeFront?_eq_some whole
    obtain ⟨pos, held⟩ := wholeFront?_bounds whole
    exact ⟨asked, known, pos, held⟩
  · rintro ⟨asked, known, pos, held⟩
    rw [wholeFront?_of_known asked known pos, if_pos held]

/-! ### The loop -/

/-- The piece of a segment that begins at an offset: a whole PDU if one is declared there, and all that is
left otherwise. -/
def cutAt (framing : Framing) (probe : LengthProbe) (c : Chunk) (offset : Nat) : Pdu :=
  let rest := c.data.drop offset
  match wholeFront? framing probe rest with
  | some n => ⟨advance c.seq offset, rest.take n, c.frame, c.frame, true⟩
  | none => ⟨advance c.seq offset, rest, c.frame, c.frame, false⟩

/-- The pieces that a loop along the payload cuts from an offset on, if some rounds are enough for it. -/
def cutFrom? (framing : Framing) (probe : LengthProbe) (c : Chunk) : Nat → Nat → Option (List Pdu)
  | 0, offset => if c.data.length ≤ offset then some [] else none
  | rounds + 1, offset =>
    if c.data.length ≤ offset then some []
    else
      let pdu := cutAt framing probe c offset
      (cutFrom? framing probe c rounds (offset + pdu.data.length)).map (pdu :: ·)

theorem cutAt_of_some {offset n : Nat} (whole : wholeFront? framing probe (c.data.drop offset) = some n) :
    cutAt framing probe c offset =
      ⟨advance c.seq offset, (c.data.drop offset).take n, c.frame, c.frame, true⟩ := by
  simp only [cutAt, whole]

theorem cutAt_of_none {offset : Nat} (none : wholeFront? framing probe (c.data.drop offset) = none) :
    cutAt framing probe c offset =
      ⟨advance c.seq offset, c.data.drop offset, c.frame, c.frame, false⟩ := by
  simp only [cutAt, none]

theorem cutFrom?_of_past {offset : Nat} (past : c.data.length ≤ offset) (rounds : Nat) :
    cutFrom? framing probe c rounds offset = some [] := by
  cases rounds <;> exact if_pos past

theorem cutFrom?_succ {offset : Nat} (inside : offset < c.data.length) (rounds : Nat) :
    cutFrom? framing probe c (rounds + 1) offset =
      (cutFrom? framing probe c rounds
        (offset + (cutAt framing probe c offset).data.length)).map (cutAt framing probe c offset :: ·) :=
  if_neg (Nat.not_le.2 inside)

/-- All there is to know of the piece at an offset.  It is complete if a PDU of just its bytes is declared
there; otherwise it takes all that is left, and no PDU is declared. -/
structure Cut (framing : Framing) (probe : LengthProbe) (c : Chunk) (offset : Nat) (pdu : Pdu) : Prop where
  seq : pdu.seq = advance c.seq offset
  frames : pdu.firstFrame = c.frame ∧ pdu.lastFrame = c.frame
  nonempty : pdu.data ≠ []
  front : pdu.data ++ c.data.drop (offset + pdu.data.length) = c.data.drop offset
  complete : pdu.complete = true → Declares framing probe (c.data.drop offset) pdu.data.length
  incomplete : pdu.complete = false →
    pdu.data = c.data.drop offset ∧ ∀ n, ¬ Declares framing probe (c.data.drop offset) n

variable (framing probe) in
theorem cut_cutAt {offset : Nat} (inside : offset < c.data.length) :
    Cut framing probe c offset (cutAt framing probe c offset) := by
  cases whole : wholeFront? framing probe (c.data.drop offset) with
  | some n =>
      have declared := wholeFront?_eq_some_iff.1 whole
      have long : ((c.data.drop offset).take n).length = n := List.length_take_of_le declared.held
      rw [cutAt_of_some whole]
      exact {
        seq := rfl
        frames := ⟨rfl, rfl⟩
        nonempty := List.length_pos_iff.1 (long.symm ▸ declared.pos)
        front := by
          dsimp only
          rw [long, ← List.drop_drop, List.take_append_drop]
        complete := fun _ => long.symm ▸ declared
        incomplete := nofun }
  | none =>
      rw [cutAt_of_none whole]
      exact {
        seq := rfl
        frames := ⟨rfl, rfl⟩
        nonempty := fun none => Nat.not_le.2 inside (List.drop_eq_nil_iff.1 none)
        front := by
          dsimp only
          rw [← List.drop_drop, List.drop_length, List.append_nil]
        complete := nofun
        incomplete := fun _ => ⟨rfl, fun n declared => by
          cases whole.symm.trans (wholeFront?_eq_some_iff.2 declared)⟩ }

variable (framing probe) in
/-- **Every round gets ahead**, whatever the probe says, and none past the end. -/
theorem length_cutAt {offset : Nat} (inside : offset < c.data.length) :
    0 < (cutAt framing probe c offset).data.length ∧
      offset + (cutAt framing probe c offset).data.length ≤ c.data.length := by
  have cut := cut_cutAt framing probe inside
  have split := congrArg List.length cut.front
  have some := List.length_pos_iff.2 cut.nonempty
  rw [List.length_append, List.length_drop, List.length_drop] at split
  exact ⟨some, by omega⟩

/-- The pieces from an offset on are the one that begins there and those behind it. -/
theorem pieces_drop {offset : Nat} (inside : offset < c.data.length) :
    pieces framing probe c.frame (advance c.seq offset) (c.data.drop offset) =
      cutAt framing probe c offset ::
        pieces framing probe c.frame
          (advance c.seq (offset + (cutAt framing probe c offset).data.length))
          (c.data.drop (offset + (cutAt framing probe c offset).data.length)) := by
  have cut := cut_cutAt framing probe inside
  cases whole : wholeFront? framing probe (c.data.drop offset) with
  | some n =>
      have long : ((c.data.drop offset).take n).length = n :=
        List.length_take_of_le (wholeFront?_bounds whole).2
      rw [pieces_of_some c.frame _ whole, cutAt_of_some whole, long, advance_advance, List.drop_drop]
      rfl
  | none =>
      have front := cut.front
      have nonempty := cut.nonempty
      rw [cutAt_of_none whole] at front nonempty ⊢
      rw [List.append_right_eq_self.1 front, pieces, if_neg nonempty]
      split
      · rw [pieces, if_pos rfl]
      · rename_i n found
        cases whole.symm.trans found

/-- **The loop comes to its end**, after no more rounds than there are bytes, with the pieces of the
segment. -/
theorem cutFrom?_eq_pieces {rounds offset : Nat} (enough : c.data.length ≤ offset + rounds) :
    cutFrom? framing probe c rounds offset =
      some (pieces framing probe c.frame (advance c.seq offset) (c.data.drop offset)) := by
  have through {offset : Nat} (past : c.data.length ≤ offset) (rounds : Nat) :
      cutFrom? framing probe c rounds offset =
        some (pieces framing probe c.frame (advance c.seq offset) (c.data.drop offset)) := by
    rw [cutFrom?_of_past past, List.drop_eq_nil_of_le past, pieces, if_pos rfl]
  induction rounds generalizing offset with
  | zero => exact through enough 0
  | succ rounds ih =>
      rcases Nat.lt_or_ge offset c.data.length with inside | past
      · have ahead := length_cutAt framing probe inside
        rw [cutFrom?_succ inside, ih (by omega), Option.map_some, ← pieces_drop inside]
      · exact through past _

/-! ### What the pieces are -/

/-- The pieces cut from an offset on lie end to end up to the end of the payload, and no piece stands behind
one that is not complete. -/
structure CutFrom (framing : Framing) (probe : LengthProbe) (c : Chunk) (offset : Nat) (pdus : List Pdu) :
    Prop where
  joined : pdus.flatMap (·.data) = c.data.drop offset
  piece : ∀ front pdu back, pdus = front ++ pdu :: back →
    Cut framing probe c (offset + (front.flatMap (·.data)).length) pdu ∧
      (pdu.complete = false → back = [])

/-- **What the loop has cut when it is through**, by induction on its rounds. -/
theorem cutFrom_of_cutFrom? {rounds offset : Nat} {pdus : List Pdu}
    (cut : cutFrom? framing probe c rounds offset = some pdus) : CutFrom framing probe c offset pdus := by
  have through {offset : Nat} (past : c.data.length ≤ offset) : CutFrom framing probe c offset [] :=
    ⟨(List.drop_eq_nil_of_le past).symm, fun front pdu back split => by simp at split⟩
  induction rounds generalizing offset pdus with
  | zero =>
      rw [cutFrom?] at cut
      split at cut
      · rename_i past
        obtain rfl := Option.some.inj cut
        exact through past
      · cases cut
  | succ rounds ih =>
      rcases Nat.lt_or_ge offset c.data.length with inside | past
      · rw [cutFrom?_succ inside] at cut
        obtain ⟨rest, later, rfl⟩ := Option.map_eq_some_iff.1 cut
        have first := cut_cutAt framing probe inside
        have behind := ih later
        refine ⟨?_, fun front pdu back split => ?_⟩
        · rw [List.flatMap_cons, behind.joined, first.front]
        · cases front with
          | nil =>
              obtain ⟨rfl, rfl⟩ := List.cons.inj split
              refine ⟨first, fun incomplete => ?_⟩
              -- it took all that was left, so the next round found nothing
              have all := (first.incomplete incomplete).1
              have past : c.data.length ≤ offset + (cutAt framing probe c offset).data.length := by
                rw [all, List.length_drop]
                omega
              exact Option.some.inj (later.symm.trans (cutFrom?_of_past past rounds))
          | cons _ front =>
              obtain ⟨rfl, others⟩ := List.cons.inj split
              rw [List.flatMap_cons, List.length_append, ← Nat.add_assoc]
              exact behind.piece front pdu back others
      · obtain rfl := Option.some.inj (cut.symm.trans (cutFrom?_of_past past _))
        exact through past

/-- The pieces of a segment that stands alone. -/
structure Tiles (framing : Framing) (probe : LengthProbe) (c : Chunk) (pdus : List Pdu) : Prop where
  /-- Laid end to end they are the payload. -/
  joined : pdus.flatMap (·.data) = c.data
  nonempty : ∀ pdu ∈ pdus, pdu.data ≠ []
  frames : ∀ pdu ∈ pdus, pdu.firstFrame = c.frame ∧ pdu.lastFrame = c.frame
  /-- Each piece carries the number of its place. -/
  seq : ∀ front pdu back, pdus = front ++ pdu :: back →
    pdu.seq = advance c.seq (front.flatMap (·.data)).length
  /-- A complete piece is as long as the probe declares, asked about all bytes from its start on. -/
  complete : ∀ front pdu back, pdus = front ++ pdu :: back → pdu.complete = true →
    Declares framing probe (c.data.drop (front.flatMap (·.data)).length) pdu.data.length
  /-- A piece that is not complete is the last one, and no PDU is declared where it begins. -/
  incomplete : ∀ front pdu back, pdus = front ++ pdu :: back → pdu.complete = false →
    back = [] ∧ ∀ n, ¬ Declares framing probe (c.data.drop (front.flatMap (·.data)).length) n

theorem CutFrom.tiles {pdus : List Pdu} (cut : CutFrom framing probe c 0 pdus) :
    Tiles framing probe c pdus := by
  have piece : ∀ front pdu back, pdus = front ++ pdu :: back →
      Cut framing probe c (front.flatMap (·.data)).length pdu ∧ (pdu.complete = false → back = []) := by
    intro front pdu back split
    have piece := cut.piece front pdu back split
    rwa [Nat.zero_add] at piece
  have each {P : Pdu → Prop} (all : ∀ offset pdu, Cut framing probe c offset pdu → P pdu) :
      ∀ pdu ∈ pdus, P pdu := by
    intro pdu mem
    obtain ⟨front, back, split⟩ := List.append_of_mem mem
    exact all _ pdu (piece front pdu back split).1
  exact {
    joined := cut.joined
    nonempty := each fun _ _ cut => cut.nonempty
    frames := each fun _ _ cut => cut.frames
    seq := fun front pdu back split => (piece front pdu back split).1.seq
    complete := fun front pdu back split => (piece front pdu back split).1.complete
    incomplete := fun front pdu back split incomplete =>
      ⟨(piece front pdu back split).2 incomplete,
        ((piece front pdu back split).1.incomplete incomplete).2⟩ }

/-- **Segments that stand alone are tiled.**  Whatever the probe answers, feeding such a segment leaves the
assembler as it is and does not fail.  The loop along the payload is through after no more rounds than there
are bytes, and delivers pieces that tile the segment. -/
theorem tiles_feed (a : Assembler) (probe : LengthProbe) (alone : framing.desegment = false)
    (nonempty : c.data ≠ []) :
    let out := a.feed framing probe c
    out.assembler = a ∧ out.error = none ∧
      cutFrom? framing probe c c.data.length 0 = some out.pdus ∧ Tiles framing probe c out.pdus := by
  have fed : a.feed framing probe c = {
      assembler := a
      pdus := pieces framing probe c.frame c.seq c.data
      delivered := (pieces framing probe c.frame c.seq c.data).length } := by
    rw [feed, if_neg nonempty, alone]
    rfl
  have cut : cutFrom? framing probe c c.data.length 0 =
      some (pieces framing probe c.frame (advance c.seq 0) (c.data.drop 0)) :=
    cutFrom?_eq_pieces (Nat.le_of_eq (Nat.zero_add _).symm)
  rw [advance_zero, List.drop_zero] at cut
  rw [fed]
  exact ⟨rfl, rfl, cut, (cutFrom_of_cutFrom? cut).tiles⟩

/-- A segment over the wrap, with a probe that believes the first byte.  The last piece begins with a zero,
which is no length; the bytes an earlier segment left stay where they are. -/
theorem tiles_feed_zero_length :
    let framing : Framing := { desegment := false, fixedLen := 2 }
    let probe : LengthProbe := fun bytes => .known (bytes.headD 0).toNat
    let a : Assembler := { state := .waiting, buffer := [9], startSeq := 7, firstFrame := 3 }
    let c : Chunk := ⟨0xfffffffd, 8, 0, [2, 5, 3, 7, 7, 0, 1, 1]⟩
    let out := a.feed framing probe c
    (framing.desegment = false ∧ c.data ≠ []) ∧
      (out.assembler = a ∧ out.error = none ∧
        cutFrom? framing probe c c.data.length 0 = some out.pdus ∧ Tiles framing probe c out.pdus) ∧
      out.pdus = [⟨0xfffffffd, [2, 5], 8, 8, true⟩, ⟨0xffffffff, [3, 7, 7], 8, 8, true⟩,
        ⟨2, [0, 1, 1], 8, 8, false⟩] := by
  intro framing probe a c out
  have alone : framing.desegment = false := rfl
  have nonempty : c.data ≠ [] := by decide
  have tiled := tiles_feed a probe alone nonempty
  have cut : cutFrom? framing probe c c.data.length 0 =
      some [⟨0xfffffffd, [2, 5], 8, 8, true⟩, ⟨0xffffffff, [3, 7, 7], 8, 8, true⟩,
        ⟨2, [0, 1, 1], 8, 8, false⟩] := by decide
  exact ⟨⟨alone, nonempty⟩, tiled, Option.some.inj (tiled.2.2.1.symm.trans cut)⟩

end Assembler

end TcpCapture
