import TcpCapture.Proofs.Pdu.EntireSegment
import TcpCapture.Proofs.Pdu.RoundTrip

/-!
# Segments of whole PDUs

Where every segment is made up of whole PDUs, it makes no difference whether PDUs are collected across
segments or segments stand alone.  Two loops cut the segments: one takes PDUs off the front of what is
collected, the other one moves along the payload.  Both are compared with the PDUs that the segment was
made of.

## Main definitions

* `IsPdu` — the probe knows some bytes to be one PDU
* `Pdu.within` — a whole PDU that lies in one segment
* `ToldApart` — the probe finds the end of each of some PDUs, whatever comes behind it
* `Assembler.Outcome.told` — what a call tells: PDUs, error and count
* `Assembler.feeds_aligned` — both ways deliver the PDUs of each segment, call by call

**Nothing is carried over.**  After a segment of whole PDUs nothing is collected, so the next one is cut as
if it were the first.  Segments need not follow one another.
-/

namespace TcpCapture

/-- Asked about these bytes, the probe knows that they are one PDU. -/
structure IsPdu (fixedLen : Nat) (probe : LengthProbe) (bytes : List UInt8) : Prop where
  nonempty : bytes ≠ []
  long : fixedLen ≤ bytes.length
  known : probe bytes = .known bytes.length

instance (fixedLen : Nat) (probe : LengthProbe) (bytes : List UInt8) :
    Decidable (IsPdu fixedLen probe bytes) :=
  decidable_of_iff (bytes ≠ [] ∧ fixedLen ≤ bytes.length ∧ probe bytes = .known bytes.length)
    ⟨fun h => ⟨h.1, h.2.1, h.2.2⟩, fun h => ⟨h.nonempty, h.long, h.known⟩⟩

/-- A whole PDU that lies in one segment. -/
def Pdu.within (frame : Nat) (x : Seq × List UInt8) : Pdu := ⟨x.1, x.2, frame, frame, true⟩

/-- With some PDUs in front of it, the probe finds the end of the first one, and so on with those behind
it. -/
def ToldApart (fixedLen : Nat) (probe : LengthProbe) : List (List UInt8) → Prop
  | [] => True
  | pdu :: rest =>
    (probe (pdu ++ rest.flatten) = .known pdu.length ∧
      0 < pdu.length ∧ pdu.length < Assembler.maxPduLen ∧ fixedLen ≤ pdu.length) ∧
    ToldApart fixedLen probe rest

namespace Assembler

variable {framing : Framing} {probe : LengthProbe} {pdus : List (List UInt8)}

/-! ### The ends of PDUs -/

/-- A probe that keeps its word tells PDUs apart that it knows one by one. -/
theorem toldApart_of_leftOver {stream : List UInt8} (regular : Regular framing probe stream)
    (left : LeftOver framing probe stream pdus.flatten)
    (whole : ∀ pdu ∈ pdus, IsPdu framing.fixedLen probe pdu) :
    ToldApart framing.fixedLen probe pdus := by
  induction pdus with
  | nil => trivial
  | cons pdu rest ih =>
      obtain ⟨⟨nonempty, long, known⟩, others⟩ := List.forall_mem_cons.1 whole
      rw [List.flatten_cons] at left
      have front : pdu <+: pdu ++ rest.flatten := List.prefix_append _ _
      have asked : Asked framing (pdu ++ rest.flatten) pdu := ⟨nonempty, long, front⟩
      have bounds := regular.bounds left asked known
      have all := regular.stable _ left _ _ asked front (List.prefix_refl _) _ known
      refine ⟨⟨all, bounds⟩, ih ?_ others⟩
      have found : wholeFront? framing probe (pdu ++ rest.flatten) = some pdu.length := by
        rw [wholeFront?_of_known (Nat.le_trans long front.length_le) all bounds.1,
          if_pos front.length_le]
      have behind := left.cut found
      rwa [List.drop_left] at behind

theorem length_le_flatten_cons (pdu : List UInt8) (rest : List (List UInt8)) :
    pdu.length ≤ (pdu :: rest).flatten.length := by
  rw [List.flatten_cons, List.length_append]
  exact Nat.le_add_right _ _

section

variable {pdu : List UInt8} {rest : List (List UInt8)}
  (told : ToldApart framing.fixedLen probe (pdu :: rest))

include told

theorem flatten_ne_nil_of_toldApart : (pdu :: rest).flatten ≠ [] :=
  List.length_pos_iff.1 (Nat.lt_of_lt_of_le told.1.2.1 (length_le_flatten_cons pdu rest))

/-- A segment that stands alone begins with the first PDU. -/
theorem wholeFront?_of_toldApart :
    wholeFront? framing probe (pdu :: rest).flatten = some pdu.length := by
  have le := length_le_flatten_cons pdu rest
  rw [wholeFront?_of_known (Nat.le_trans told.1.2.2.2 le) told.1.1 told.1.2.1, if_pos le]

/-- So does what is collected. -/
theorem ofProbe_of_toldApart :
    Front.ofProbe framing probe (pdu :: rest).flatten = .length pdu.length := by
  have long := Nat.le_trans told.1.2.2.2 (length_le_flatten_cons pdu rest)
  unfold Front.ofProbe
  rw [if_neg (Nat.not_lt.2 long), List.flatten_cons, told.1.1]
  exact if_pos told.1.2

end

/-! ### The two loops -/

/-- A whole PDU is cut off a segment that stands alone. -/
theorem pieces_of_some {bytes : List UInt8} {n : Nat} (frame : Nat) (seq : Seq)
    (whole : wholeFront? framing probe bytes = some n) :
    pieces framing probe frame seq bytes =
      Pdu.within frame (seq, bytes.take n) ::
        pieces framing probe frame (advance seq n) (bytes.drop n) := by
  have nonempty : bytes ≠ [] := by
    rintro rfl
    cases (wholeFront?_nil framing probe).symm.trans whole
  rw [pieces, if_neg nonempty]
  split
  · rename_i none
    cases whole.symm.trans none
  · rename_i n' found
    obtain rfl := Option.some_inj.1 (whole.symm.trans found)
    rfl

/-- **Segments that stand alone** are cut into their PDUs, and no piece is left. -/
theorem pieces_flatten (told : ToldApart framing.fixedLen probe pdus) (frame : Nat) (seq : Seq) :
    pieces framing probe frame seq pdus.flatten = (placed seq pdus).map (Pdu.within frame) := by
  induction pdus generalizing seq with
  | nil =>
      rw [List.flatten_nil, pieces, if_pos rfl]
      rfl
  | cons pdu rest ih =>
      rw [pieces_of_some frame seq (wholeFront?_of_toldApart told), List.flatten_cons, List.take_left,
        List.drop_left, ih told.2]
      rfl

/-- **What is collected** is cut into its PDUs, and nothing stays. -/
theorem drain_flatten {a : Assembler} {frame : Nat} (told : ToldApart framing.fixedLen probe pdus)
    (idle : a.state = .idle) (buffer : a.buffer = pdus.flatten) (first : a.firstFrame = frame)
    (undescribed : a.descriptors = {}) (time : Nat) :
    (a.drain framing probe frame time).pdus = (placed a.startSeq pdus).map (Pdu.within frame) ∧
      (a.drain framing probe frame time).error = none ∧
      (a.drain framing probe frame time).assembler.IsEmpty ∧
      (a.drain framing probe frame time).assembler.untilClose = a.untilClose := by
  induction pdus generalizing a with
  | nil =>
      have empty : a.buffer = [] := buffer
      rw [drain, dif_pos empty]
      exact ⟨rfl, rfl, ⟨rfl, empty, undescribed⟩, rfl⟩
  | cons pdu rest ih =>
      have nonempty : a.buffer ≠ [] := buffer ▸ flatten_ne_nil_of_toldApart told
      have front : a.front framing probe = .length pdu.length := by
        rw [Assembler.front, idle, buffer]
        exact ofProbe_of_toldApart told
      have whole : ¬ a.buffer.length < pdu.length := by
        rw [buffer]
        exact Nat.not_lt.2 (length_le_flatten_cons pdu rest)
      rw [drain_of_length nonempty front, if_neg whole]
      have behind : (a.afterCut pdu.length frame).buffer = rest.flatten := by
        show a.buffer.drop pdu.length = _
        rw [buffer, List.flatten_cons, List.drop_left]
      have erased : (a.afterCut pdu.length frame).descriptors = {} := by
        show a.descriptors.erase a.startSeq = {}
        rw [undescribed]
        rfl
      obtain ⟨delivered, error, empty, untilClose⟩ := ih told.2 rfl behind rfl erased
      refine ⟨?_, error, empty, untilClose⟩
      have cut : a.cut pdu.length frame = Pdu.within frame (a.startSeq, pdu) := by
        rw [Assembler.cut, buffer, first, List.flatten_cons, List.take_left]
        rfl
      show a.cut pdu.length frame :: _ = _
      rw [cut, delivered]
      rfl

/-! ### Segments -/

/-- What a chunk of whole PDUs leads to: they are delivered, and nothing stays. -/
structure DeliversAll (c : Chunk) (pdus : List (List UInt8)) (out : Outcome) : Prop where
  pdus : out.pdus = (placed c.seq pdus).map (Pdu.within c.frame)
  error : out.error = none
  isFresh : out.assembler.IsFresh

/-- **One chunk**, in either way. -/
theorem IsFresh.deliversAll_feed {a : Assembler} (fresh : a.IsFresh)
    (bounded : framing.untilClose = false) {c : Chunk} (data : c.data = pdus.flatten)
    (told : ToldApart framing.fixedLen probe pdus) :
    DeliversAll c pdus (a.feed framing probe c) := by
  cases pdus with
  | nil =>
      have none : c.data = [] := data
      rw [feed, if_pos none]
      exact ⟨rfl, rfl, fresh⟩
  | cons pdu rest =>
      have nonempty : c.data ≠ [] := data ▸ flatten_ne_nil_of_toldApart told
      cases desegment : framing.desegment with
      | false =>
          rw [feed, if_neg nonempty, desegment, data]
          exact ⟨pieces_flatten told c.frame c.seq, rfl, fresh⟩
      | true =>
          have taken : a.takeIn c =
              { a with startSeq := c.seq, firstFrame := c.frame, buffer := c.data } := by
            unfold takeIn Assembler.append start
            rw [if_pos fresh.state, fresh.buffer, fresh.descriptors]
            rfl
          rw [feed_eq_drain_takeIn fresh.untilClose nonempty desegment bounded, taken]
          obtain ⟨delivered, error, empty, untilClose⟩ := drain_flatten
            (a := { a with startSeq := c.seq, firstFrame := c.frame, buffer := c.data }) told
            fresh.state data rfl fresh.descriptors c.timestamp
          exact ⟨delivered, error, empty, untilClose.trans fresh.untilClose⟩

/-- What a call of `feed` tells: the PDUs, the error and the count. -/
def Outcome.told (out : Outcome) : List Pdu × Option CaptureError × Nat :=
  (out.pdus, out.error, out.delivered)

theorem told_feed (a : Assembler) (framing : Framing) (probe : LengthProbe) {c : Chunk}
    (all : DeliversAll c pdus (a.feed framing probe c)) : (a.feed framing probe c).told =
      ((placed c.seq pdus).map (Pdu.within c.frame), none, pdus.length) := by
  unfold Outcome.told
  rw [delivered_feed, all.pdus, all.error, List.length_map, length_placed]

/-- **Any number of chunks.** -/
theorem IsFresh.outcomes_feeds {a : Assembler} (fresh : a.IsFresh)
    (bounded : framing.untilClose = false) {chunks : List Chunk} (cut : Chunk → List (List UInt8))
    (data : ∀ c ∈ chunks, c.data = (cut c).flatten)
    (told : ∀ c ∈ chunks, ToldApart framing.fixedLen probe (cut c)) :
    (a.feeds framing probe chunks).map Outcome.told = chunks.map fun c =>
      ((placed c.seq (cut c)).map (Pdu.within c.frame), none, (cut c).length) := by
  induction chunks generalizing a with
  | nil => rfl
  | cons c rest ih =>
      obtain ⟨data, others⟩ := List.forall_mem_cons.1 data
      obtain ⟨told, toldOthers⟩ := List.forall_mem_cons.1 told
      have first := fresh.deliversAll_feed bounded data told
      rw [feeds, List.map_cons, List.map_cons, ih first.isFresh others toldOthers, told_feed _ _ _ first]

/-- **Both ways of framing agree on aligned segments.**  Let the probe keep its word on each of some
segments, and let each of these be PDUs of the probe laid end to end.  Then a new assembler delivers the
same in each call, whether it collects PDUs across segments or not: the PDUs of the segment, complete and
in its frame.  No call fails, and each returns the number of its PDUs. -/
theorem feeds_aligned (fixedLen : Nat) (probe : LengthProbe) (chunks : List Chunk)
    (regular : ∀ c ∈ chunks, Regular { fixedLen } probe c.data)
    (cut : Chunk → List (List UInt8)) (data : ∀ c ∈ chunks, c.data = (cut c).flatten)
    (whole : ∀ c ∈ chunks, ∀ pdu ∈ cut c, IsPdu fixedLen probe pdu) :
    (feeds {} { desegment := true, fixedLen } probe chunks).map Outcome.told =
        (feeds {} { desegment := false, fixedLen } probe chunks).map Outcome.told ∧
      (feeds {} { desegment := true, fixedLen } probe chunks).map Outcome.told = chunks.map fun c =>
        ((placed c.seq (cut c)).map (Pdu.within c.frame), none, (cut c).length) := by
  have fresh : IsFresh {} := ⟨⟨rfl, rfl, rfl⟩, rfl⟩
  have told : ∀ c ∈ chunks, ToldApart fixedLen probe (cut c) := fun c mem =>
    toldApart_of_leftOver (regular c mem) (data c mem ▸ .whole) (whole c mem)
  have each (desegment : Bool) : (feeds {} { desegment, fixedLen } probe chunks).map Outcome.told =
      chunks.map fun c => ((placed c.seq (cut c)).map (Pdu.within c.frame), none, (cut c).length) :=
    fresh.outcomes_feeds rfl cut data told
  exact ⟨(each true).trans (each false).symm, each true⟩

/-- Three PDUs in two segments, over numbers that wrap inside the first segment. -/
theorem feeds_aligned_wrapping :
    let probe := LengthField.probe ⟨0, .one, 1⟩
    let chunks : List Chunk :=
      [⟨0xfffffffe, 7, 0, [1, 20, 2, 30, 31]⟩, ⟨3, 8, 0, [0]⟩]
    (feeds {} { desegment := true, fixedLen := 1 } probe chunks).map Outcome.told =
        (feeds {} { desegment := false, fixedLen := 1 } probe chunks).map Outcome.told ∧
      (feeds {} { desegment := true, fixedLen := 1 } probe chunks).map Outcome.told =
        [([⟨0xfffffffe, [1, 20], 7, 7, true⟩, ⟨0, [2, 30, 31], 7, 7, true⟩], none, 2),
          ([⟨3, [0], 8, 8, true⟩], none, 1)] := by
  intro probe chunks
  let cut (c : Chunk) : List (List UInt8) := if c.frame = 7 then [[1, 20], [2, 30, 31]] else [[0]]
  have regular : ∀ c ∈ chunks, Regular { fixedLen := 1 } probe c.data := fun _ _ =>
    LengthField.regular _ (by decide) (by decide) (by decide) _
  have data : ∀ c ∈ chunks, c.data = (cut c).flatten := by decide
  have whole : ∀ c ∈ chunks, ∀ pdu ∈ cut c, IsPdu 1 probe pdu := by decide +kernel
  obtain ⟨same, delivered⟩ := feeds_aligned 1 probe chunks regular cut data whole
  exact ⟨same, delivered.trans (by decide)⟩

end Assembler

end TcpCapture
