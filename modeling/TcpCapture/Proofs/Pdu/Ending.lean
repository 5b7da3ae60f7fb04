import TcpCapture.Proofs.Flow.Release
import TcpCapture.Proofs.Pdu.Parse

/-!
# Streams that end

What an assembler makes of a stream whose direction ends: with a length probe the whole PDUs at its
front, and where each direction is one PDU the bytes collected so far.

## Main definitions

* `Assembler.parsedLength` — how many bytes the PDUs of a parse take up
* `Assembler.Gathered` — an assembler that collects until its direction ends

**Ending resets.**  An assembler that was told of the end collects what comes afterwards as a stream of
its own.
-/

namespace TcpCapture

namespace Assembler

variable {framing : Framing} {probe : LengthProbe} {stream : List UInt8} {origin : Seq}
  {a : Assembler} {chunks : List Chunk}

/-! ### Feeding in two goes -/

theorem feedAll_append {l : List Chunk} (fine : (a.feedAll framing probe l).error = none)
    (l' : List Chunk) :
    a.feedAll framing probe (l ++ l') =
      let later := (a.feedAll framing probe l).assembler.feedAll framing probe l'
      { later with
        pdus := (a.feedAll framing probe l).pdus ++ later.pdus
        delivered := (a.feedAll framing probe l).delivered + later.delivered } := by
  induction l generalizing a with
  | nil => exact (congrArg (Outcome.mk _ _ _ ·) (Nat.zero_add _)).symm
  | cons c rest ih =>
      rw [feedAll] at fine
      rw [List.cons_append, feedAll, feedAll]
      by_cases failed : (a.feed framing probe c).error.isSome = true
      · rw [if_pos failed] at fine
        rw [fine] at failed
        cases failed
      · rw [if_neg failed] at fine ⊢
        rw [ih fine, if_neg failed]
        exact congrArg₂ (Outcome.mk _ · _ ·) (List.append_assoc ..).symm (Nat.add_assoc ..).symm

/-- What fails stays failed. -/
theorem error_feedAll_of_append {l l' : List Chunk}
    (fine : (a.feedAll framing probe (l ++ l')).error = none) :
    (a.feedAll framing probe l).error = none := by
  induction l generalizing a with
  | nil => rfl
  | cons c rest ih =>
      rw [List.cons_append, feedAll] at fine
      rw [feedAll]
      by_cases failed : (a.feed framing probe c).error.isSome = true
      · rw [if_pos failed] at fine ⊢
        exact fine
      · rw [if_neg failed] at fine ⊢
        exact ih fine

/-! ### Whole PDUs at the front -/

/-- An assembler that collected nothing is at the start of any stream. -/
theorem assembling_discard (framing : Framing) (probe : LengthProbe) (stream : List UInt8)
    (origin : Seq) {a : Assembler} (untilClose : a.untilClose = false) :
    Assembling framing probe stream origin a.discard 0 0 where
  left := .whole
  waits := {
    front := List.nil_prefix
    declared := nofun
    flags := nofun
    untilClose := untilClose
    idle := ⟨fun _ => rfl, fun _ => rfl⟩
    blocked := wholeFront?_nil framing probe }
  position := rfl
  start := fun ne => absurd rfl ne

/-- Fed with all of a stream, an assembler delivers its parse. -/
theorem Assembling.feedAll_eq_parse (h : Assembling framing probe stream origin a 0 0)
    (regular : Regular framing probe stream) (desegment : framing.desegment = true)
    (bounded : framing.untilClose = false) (tiles : Tiles stream origin 0 chunks stream.length) :
    (a.feedAll framing probe chunks).error = none ∧
      (a.feedAll framing probe chunks).assembler.untilClose = false ∧
      (a.feedAll framing probe chunks).pdus.map (fun pdu => (pdu.seq, pdu.data)) =
        parse framing probe origin stream := by
  obtain ⟨p, assembling, error, parsed⟩ := h.feedAll regular desegment bounded tiles
  refine ⟨error, assembling.waits.untilClose, ?_⟩
  rw [assembling.parseFrom_eq_nil, List.append_nil, parseFrom, advance_zero,
    List.drop_zero] at parsed
  exact parsed.symm

/-- How many bytes the whole PDUs at the front take up. -/
def parsedLength (framing : Framing) (probe : LengthProbe) (bytes : List UInt8) : Nat :=
  totalOf (·.2.length) (parse framing probe 0 bytes)

/-- Where the bytes lie does not matter. -/
theorem totalOf_parse (framing : Framing) (probe : LengthProbe) (seq : Seq) (bytes : List UInt8) :
    totalOf (·.2.length) (parse framing probe seq bytes) = parsedLength framing probe bytes := by
  unfold parsedLength
  generalize (0 : Seq) = other
  fun_induction parse framing probe seq bytes generalizing other with
  | case1 seq bytes none => rw [parse_of_none none]
  | case2 seq bytes n whole shorter ih =>
      rw [parse_of_some whole, totalOf_cons, totalOf_cons, ih]

theorem parsedLength_of_none {bytes : List UInt8} (h : wholeFront? framing probe bytes = none) :
    parsedLength framing probe bytes = 0 := by
  rw [parsedLength, parse_of_none h, totalOf_nil]

theorem parsedLength_of_some {bytes : List UInt8} {n : Nat}
    (h : wholeFront? framing probe bytes = some n) :
    parsedLength framing probe bytes = n + parsedLength framing probe (bytes.drop n) := by
  rw [parsedLength, parse_of_some h, totalOf_cons, totalOf_parse,
    List.length_take_of_le (wholeFront?_bounds h).2]

theorem parsedLength_le (framing : Framing) (probe : LengthProbe) (bytes : List UInt8) :
    parsedLength framing probe bytes ≤ bytes.length := by
  unfold parsedLength
  generalize (0 : Seq) = seq
  fun_induction parse framing probe seq bytes with
  | case1 => exact Nat.zero_le _
  | case2 seq bytes n whole shorter ih =>
      have := wholeFront?_bounds whole
      rw [totalOf_cons, List.length_take]
      rw [List.length_drop] at ih
      omega

theorem parse_eq_nil_iff (seq : Seq) {bytes : List UInt8} :
    parse framing probe seq bytes = [] ↔ wholeFront? framing probe bytes = none := by
  constructor
  · intro nothing
    cases whole : wholeFront? framing probe bytes with
    | none => rfl
    | some n =>
        rw [parse_of_some whole] at nothing
        cases nothing
  · intro none
    exact parse_of_none none seq

/-- A whole PDU stays whole when more bytes arrive. -/
theorem Regular.wholeFront?_of_prefix (regular : Regular framing probe stream)
    {rest bytes : List UInt8} {n : Nat} (left : LeftOver framing probe stream rest)
    (front : bytes <+: rest) (whole : wholeFront? framing probe bytes = some n) :
    wholeFront? framing probe rest = some n := by
  obtain ⟨pos, le⟩ := wholeFront?_bounds whole
  obtain ⟨long, known⟩ := wholeFront?_eq_some whole
  have asked : Asked framing rest bytes :=
    ⟨List.length_pos_iff.1 (Nat.lt_of_lt_of_le pos le), long, front⟩
  have later := regular.stable rest left bytes rest asked front (List.prefix_refl rest) n known
  rw [wholeFront?_of_known (Nat.le_trans long front.length_le) later pos]
  exact if_pos (Nat.le_trans le front.length_le)

/-- The parse of a front is a front of the parse: what follows is the parse of what the front leaves,
together with the bytes behind it. -/
theorem parse_of_prefix (regular : Regular framing probe stream) {rest bytes : List UInt8}
    (left : LeftOver framing probe stream rest) (front : bytes <+: rest) (seq : Seq) :
    parse framing probe seq rest = parse framing probe seq bytes ++
      parse framing probe (advance seq (parsedLength framing probe bytes))
        (rest.drop (parsedLength framing probe bytes)) := by
  fun_induction parse framing probe seq bytes generalizing rest with
  | case1 seq bytes none =>
      rw [parsedLength_of_none none, advance_zero, List.drop_zero]
      rfl
  | case2 seq bytes n whole shorter ih =>
      have whole' := regular.wholeFront?_of_prefix left front whole
      have same : rest.take n = bytes.take n := by
        obtain ⟨more, rfl⟩ := front
        exact List.take_append_of_le_length (wholeFront?_bounds whole).2
      rw [parse_of_some whole', same, ih (left.cut whole') (front.drop n),
        parsedLength_of_some whole, ← advance_advance, ← List.drop_drop]
      rfl

/-! ### One PDU that ends with its direction -/

/-- The assembler collects until its direction ends, and has collected some bytes from `origin` on. -/
structure Gathered (origin : Seq) (bytes : List UInt8) (a : Assembler) : Prop where
  buffer : a.buffer = bytes
  idle : a.state = .idle ↔ bytes = []
  start : bytes ≠ [] → a.startSeq = origin ∧ a.untilClose = true

theorem gathered_discard (origin : Seq) (a : Assembler) : Gathered origin [] a.discard where
  buffer := rfl
  idle := ⟨fun _ => rfl, fun _ => rfl⟩
  start := fun ne => absurd rfl ne

theorem gathered_new (origin : Seq) : Gathered origin [] {} := gathered_discard origin {}

/-- A chunk is added to what was collected, and nothing is delivered. -/
theorem Gathered.feed {bytes : List UInt8} {c : Chunk} (h : Gathered origin bytes a)
    (probe : LengthProbe)
    (desegment : framing.desegment = true) (endless : framing.untilClose = true)
    (nonempty : c.data ≠ []) (seq : bytes = [] → c.seq = origin) :
    Gathered origin (bytes ++ c.data) (a.feed framing probe c).assembler ∧
      (a.feed framing probe c).pdus = [] ∧ (a.feed framing probe c).error = none := by
  have started : (a.start c).startSeq = origin := by
    unfold Assembler.start
    split
    · rename_i idle
      exact seq (h.idle.1 idle)
    · rename_i busy
      exact (h.start fun empty => busy (h.idle.2 empty)).1
  have appended : ((a.start c).append c).1.buffer = bytes ++ c.data ∧
      ((a.start c).append c).1.startSeq = origin := by
    rw [← h.buffer, ← buffer_start a c]
    unfold Assembler.append
    dsimp only
    split
    · exact ⟨rfl, started⟩
    · exact ⟨rfl, started⟩
  have fed : a.feed framing probe c =
      { assembler :=
          { ((a.start c).append c).1 with untilClose := true }.wait c.frame c.timestamp 0 } := by
    unfold Assembler.feed
    rw [if_neg nonempty, desegment, endless]
    simp
  rw [fed]
  refine ⟨⟨appended.1, ⟨nofun, fun empty => ?_⟩, fun _ => ⟨appended.2, rfl⟩⟩, rfl, rfl⟩
  exact absurd (List.append_eq_nil_iff.1 empty).2 nonempty

/-- Chunks that lie end to end are collected, and nothing is delivered. -/
theorem Gathered.feedAll {start stop : Nat} (h : Gathered origin (stream.take start) a)
    (probe : LengthProbe) (desegment : framing.desegment = true)
    (endless : framing.untilClose = true)
    (tiles : Tiles stream origin start chunks stop) (le : start ≤ stream.length) :
    Gathered origin (stream.take stop) (a.feedAll framing probe chunks).assembler ∧
      (a.feedAll framing probe chunks).pdus = [] ∧
      (a.feedAll framing probe chunks).error = none := by
  induction chunks generalizing a start with
  | nil =>
      obtain rfl : start = stop := tiles
      exact ⟨h, rfl, rfl⟩
  | cons c rest ih =>
      obtain ⟨slice, offset, tiles⟩ := tiles
      have longer : stream.take start ++ c.data = stream.take (start + c.data.length) := by
        rw [List.take_add, ← List.prefix_iff_eq_take.1 (offset ▸ slice.data)]
      have seq : stream.take start = [] → c.seq = origin := by
        intro empty
        have none : start = 0 := by
          have := congrArg List.length empty
          rw [List.length_take, List.length_nil] at this
          omega
        rw [c.seq_eq origin, offset, none, advance_zero]
      obtain ⟨gathered, nothing, fine⟩ := h.feed probe desegment endless slice.nonempty seq
      have inside := slice.end_le
      obtain ⟨gathered, nothing', fine'⟩ := ih (longer ▸ gathered) tiles (by omega)
      rw [Assembler.feedAll, if_neg (by simp [fine])]
      refine ⟨gathered, ?_, fine'⟩
      rw [nothing]
      exact nothing'

/-! ### The end -/

/-- With a length probe the end delivers nothing. -/
theorem close_of_bounded (untilClose : a.untilClose = false) (frame : Nat) :
    (a.close frame).pdu = none ∧ (a.close frame).assembler = a.discard := by
  unfold close
  rw [untilClose, Bool.false_and, if_neg Bool.false_ne_true]
  exact ⟨rfl, rfl⟩

/-- The end delivers what was collected for it. -/
theorem Gathered.close {bytes : List UInt8} (h : Gathered origin bytes a) (frame : Nat) :
    (a.close frame).pdu.toList.map (fun pdu => (pdu.seq, pdu.data)) =
        (if bytes = [] then [] else [(origin, bytes)]) ∧
      (a.close frame).assembler = a.discard := by
  obtain ⟨rfl, idle, start⟩ := h
  unfold Assembler.close
  by_cases empty : a.buffer = []
  · rw [empty, if_pos rfl]
    simp
  · obtain ⟨seq, untilClose⟩ := start empty
    rw [if_neg empty, untilClose]
    simp [empty, cut, seq]

/-! ### Taken to end too early -/

variable {k : Nat}

/-- The PDUs of some bytes behind which their direction ends. -/
def closedPdus (framing : Framing) (probe : LengthProbe) (seq : Seq) (bytes : List UInt8) :
    List (Seq × List UInt8) :=
  if framing.untilClose then (if bytes = [] then [] else [(seq, bytes)])
  else parse framing probe seq bytes

/-- The PDUs of a stream whose direction is taken to end at position `k`: those of the front, and with
a length probe those of the rest as a stream of its own. -/
def pdusSplitAt (framing : Framing) (probe : LengthProbe) (origin : Seq) (stream : List UInt8)
    (k : Nat) : List (Seq × List UInt8) :=
  closedPdus framing probe origin (stream.take k) ++
    if framing.untilClose then [] else parse framing probe (advance origin k) (stream.drop k)

/-- Fed with a front of a stream, closed and fed with the rest, an assembler delivers the PDUs of the
stream split there. -/
theorem feedAll_close_feedAll {first later : List Chunk} (desegment : framing.desegment = true)
    (regular : framing.untilClose = false → ∀ bytes, Regular framing probe bytes)
    (small : stream.length < 0x80000000) (front : Tiles stream origin 0 first k)
    (rest : Tiles stream origin k later stream.length) (frame : Nat) :
    let fed := ({} : Assembler).feedAll framing probe first
    let closing := fed.assembler.close frame
    let resumed := closing.assembler.feedAll framing probe later
    (fed.error = none ∧ resumed.error = none) ∧
      fed.pdus.map (fun pdu => (pdu.seq, pdu.data)) ++
          closing.pdu.toList.map (fun pdu => (pdu.seq, pdu.data)) ++
        resumed.pdus.map (fun pdu => (pdu.seq, pdu.data)) =
      pdusSplitAt framing probe origin stream k := by
  intro fed closing resumed
  have rest' := rest.drop small (Nat.le_refl k)
  rw [Nat.sub_self, ← List.length_drop] at rest'
  cases mode : framing.untilClose with
  | false =>
      have front' : Tiles (stream.take k) origin 0 first (stream.take k).length :=
        (List.length_take_of_le rest.le).symm ▸ front.take (Nat.le_refl k)
      obtain ⟨fine, untilClose, parsed⟩ :=
        (assembling_new framing probe (stream.take k) origin).feedAll_eq_parse (regular mode _)
          desegment mode front'
      obtain ⟨nothing, discarded⟩ := close_of_bounded untilClose frame
      obtain ⟨fine', -, parsed'⟩ :=
        (assembling_discard framing probe (stream.drop k) (advance origin k)
          untilClose).feedAll_eq_parse (regular mode _) desegment mode rest'
      have resumes : resumed = fed.assembler.discard.feedAll framing probe later :=
        congrArg (·.feedAll framing probe later) discarded
      refine ⟨⟨fine, resumes ▸ fine'⟩, ?_⟩
      rw [pdusSplitAt, closedPdus, mode, if_neg Bool.false_ne_true, if_neg Bool.false_ne_true,
        show closing.pdu = none from nothing, resumes, ← parsed, ← parsed', Option.toList_none,
        List.map_nil, List.append_nil]
  | true =>
      obtain ⟨gathered, nothing, fine⟩ :=
        (gathered_new origin).feedAll probe desegment mode front
          (Nat.zero_le _)
      obtain ⟨closed, discarded⟩ := gathered.close frame
      have restart : Gathered (advance origin k) ((stream.drop k).take 0) closing.assembler :=
        (show closing.assembler = fed.assembler.discard from discarded) ▸ gathered_discard _ _
      obtain ⟨-, nothing', fine'⟩ := restart.feedAll probe desegment mode rest'
        (Nat.zero_le _)
      refine ⟨⟨fine, fine'⟩, ?_⟩
      rw [pdusSplitAt, closedPdus, mode, if_pos rfl, if_pos rfl, show fed.pdus = [] from nothing,
        show resumed.pdus = [] from nothing', ← closed]
      rfl

/-- Position `k` is a good place to end: where the direction is one PDU, the end of the stream, and
with a length probe a boundary between PDUs, or a position behind the last whole PDU that does not
look like the start of another. -/
def EndsBetween (framing : Framing) (probe : LengthProbe) (stream : List UInt8) (k : Nat) : Prop :=
  if framing.untilClose then k = stream.length
  else
    parsedLength framing probe (stream.take k) = k ∨
      wholeFront? framing probe (stream.drop (parsedLength framing probe (stream.take k))) = none ∧
        wholeFront? framing probe (stream.drop k) = none

/-- Where the direction is one PDU, only its end is a good place to end. -/
theorem closedPdus_take_eq_iff (untilClose : framing.untilClose = true) (le : k ≤ stream.length) :
    closedPdus framing probe origin (stream.take k) = closedPdus framing probe origin stream ↔
      k = stream.length := by
  have total (bytes : List UInt8) :
      totalOf (fun pdu => pdu.2.length) (closedPdus framing probe origin bytes) = bytes.length := by
    rw [closedPdus, if_pos untilClose]
    split
    · rename_i empty
      rw [empty]
      rfl
    · rfl
  constructor
  · intro same
    have length := congrArg (totalOf fun pdu => pdu.2.length) same
    rw [total, total, List.length_take] at length
    omega
  · rintro rfl
    rw [List.take_length]

/-- Read from two positions on, a stream gives the same PDUs only if it gives none. -/
theorem parse_drop_eq_iff {i j : Nat} (small : stream.length < 0x80000000) (lt : i < j)
    (le : j ≤ stream.length) :
    parse framing probe (advance origin j) (stream.drop j) =
        parse framing probe (advance origin i) (stream.drop i) ↔
      wholeFront? framing probe (stream.drop i) = none ∧
        wholeFront? framing probe (stream.drop j) = none := by
  constructor
  · intro same
    rw [← parse_eq_nil_iff (advance origin i), ← same, and_iff_left_of_imp (parse_eq_nil_iff _).1]
    cases whole : wholeFront? framing probe (stream.drop j) with
    | none => exact parse_of_none whole _
    | some n =>
        -- the first PDUs of the two would be at different positions
        rw [parse_of_some whole] at same
        cases whole' : wholeFront? framing probe (stream.drop i) with
        | none =>
            rw [parse_of_none whole'] at same
            cases same
        | some m =>
            rw [parse_of_some whole'] at same
            have seq := congrArg Prod.fst (List.cons.inj same).1
            have := (advance_inj origin (by omega) (by omega)).1 seq
            omega
  · rintro ⟨none, none'⟩
    rw [parse_of_none none, parse_of_none none']

/-- **The PDUs of a stream survive a split exactly at the good places.** -/
theorem pdusSplitAt_eq_iff
    (regular : framing.untilClose = false → Regular framing probe stream)
    (small : stream.length < 0x80000000) (le : k ≤ stream.length) :
    pdusSplitAt framing probe origin stream k = closedPdus framing probe origin stream ↔
      EndsBetween framing probe stream k := by
  cases mode : framing.untilClose with
  | true =>
      rw [pdusSplitAt, EndsBetween, if_pos mode, if_pos mode, List.append_nil]
      exact closedPdus_take_eq_iff mode le
  | false =>
      unfold pdusSplitAt closedPdus EndsBetween
      rw [mode, if_neg Bool.false_ne_true, if_neg Bool.false_ne_true, if_neg Bool.false_ne_true,
        if_neg Bool.false_ne_true, parse_of_prefix (regular mode) .whole (List.take_prefix k stream),
        List.append_cancel_left_eq]
      -- what is left to compare is the parse from the split with the parse from the last boundary
      have inside := parsedLength_le framing probe (stream.take k)
      rw [List.length_take] at inside
      generalize parsedLength framing probe (stream.take k) = boundary at inside ⊢
      by_cases between : boundary = k
      · rw [between]
        exact ⟨fun _ => Or.inl rfl, fun _ => rfl⟩
      · rw [parse_drop_eq_iff small (by omega) le, or_iff_right between]

end Assembler

end TcpCapture
