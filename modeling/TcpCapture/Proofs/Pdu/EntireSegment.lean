import TcpCapture.Proofs.Pdu.OpenPdu

/-!
# Segments taken whole

A PDU may ask for the whole next segment, on behalf of the caller or because the probe said so.  The
request is a flag of its descriptor, and whoever sets the flag or looks for it finds the descriptor by a
position.

## Main definitions

* `Assembler.Asks` — the two ways to ask
* `EntireRequest` — an assembler that was asked, and the chunk that comes next
* `EntireRequest.Honoured` — the chunk completes the PDU, whatever the probe says
* `marksOpen_iff_and_honoured_iff` — when asking tells of an open PDU, and when it is honoured

**The wrap.**  Descriptors are found by plain numbers, while the numbers of a PDU may go past the wrap.  A
PDU that ends behind it is not found at its own start, and one of unknown length is not found at positions
behind it.  Then the flag is not set, or stays set and is not seen.
-/

namespace TcpCapture

namespace Assembler

/-! ### Asking -/

/-- A feed that ends with a PDU for which the probe asks for the whole next segment. -/
structure EndsAsking (a : Assembler) (framing : Framing) (probe : LengthProbe) (c : Chunk) : Prop where
  nonempty : c.data ≠ []
  desegment : framing.desegment = true
  waiting : (a.feed framing probe c).assembler.state = .waiting
  header : framing.fixedLen ≤ (a.feed framing probe c).assembler.buffer.length
  verdict : probe (a.feed framing probe c).assembler.buffer = .oneMoreSegment

/-- The second assembler is the first one after it was asked to take the whole next segment. -/
inductive Asks (a : Assembler) : Assembler → Prop
  | marked {b : Assembler} (accepted : a.requestEntireSegment? = some b) : a.Asks b
  | verdict {framing : Framing} {probe : LengthProbe} {c : Chunk}
      (ends : a.EndsAsking framing probe c) : a.Asks (a.feed framing probe c).assembler

/-- The answer to a request by the caller tells whether a PDU is open. -/
def MarksOpen (a : Assembler) : Prop := a.requestEntireSegment?.isSome = true ↔ a.state ≠ .idle

/-- The PDU ends at a higher number than it begins, as far as its end is known. -/
def EndsAhead (a : Assembler) : Prop := ∀ n, a.state = .accumulating n → a.startSeq < n

/-- Everything collected and the whole chunk are one PDU, and nothing is left. -/
structure TakesWhole (a : Assembler) (c : Chunk) (out : Outcome) : Prop where
  pdus : out.pdus = [⟨a.startSeq, a.buffer ++ c.data, a.firstFrame, c.frame, true⟩]
  error : out.error = none
  isEmpty : out.assembler.IsEmpty

end Assembler

/-- An assembler that was asked, after any calls, to take the whole next segment, and the chunk that
comes next. -/
structure EntireRequest where
  calls : List AssemblerCall
  assembler : Assembler
  asked : (Assembler.callAll {} calls).Asks assembler
  bounded : assembler.untilClose = false
  chunk : Chunk
  nonempty : chunk.data ≠ []
  follows : chunk.seq = advance assembler.startSeq assembler.buffer.length

/-- Whatever the probe says, the chunk is taken whole. -/
def EntireRequest.Honoured (r : EntireRequest) : Prop :=
  ∀ framing probe, framing.desegment = true → framing.untilClose = false →
    r.assembler.TakesWhole r.chunk (r.assembler.feed framing probe r.chunk)

/-! ### The flag -/

namespace PduDescriptor

theorem takesEntireSegment_of_flags {d : PduDescriptor} (flags : d.flags = entireSegment) :
    d.takesEntireSegment = true := by
  unfold takesEntireSegment
  rw [flags]
  decide

theorem takesEntireSegment_requestEntireSegment (d : PduDescriptor) :
    d.requestEntireSegment.takesEntireSegment = true := by
  have kept : (d.flags ||| entireSegment) &&& entireSegment = entireSegment := by
    ext i
    rw [BitVec.getElem_and, BitVec.getElem_or]
    exact Bool.and_eq_right_iff_imp.2 fun set => Bool.or_eq_true_iff.2 (Or.inr set)
  unfold takesEntireSegment requestEntireSegment
  rw [kept]
  decide

end PduDescriptor

namespace Assembler

variable {a : Assembler} {d : PduDescriptor} {framing : Framing} {probe : LengthProbe} {c : Chunk}
  {frame time : Nat}

/-! ### Finding the descriptor -/

theorem covering?_of_only {t : PduTable} (only : t.entries = [d]) (seq : Seq) :
    t.covering? seq = if d.covers seq then some d else none := by
  unfold PduTable.covering?
  rw [only]
  by_cases below : d.seq ≤ seq
  · rw [List.filter_cons_of_pos (by simpa using below)]
    rfl
  · have outside : d.covers seq = false := by
      unfold PduDescriptor.covers
      rw [decide_eq_false below, Bool.false_and]
    rw [List.filter_cons_of_neg (by simpa using below), outside]
    rfl

/-- The descriptor of an open PDU covers the numbers from its start on, up to its end if that is known. -/
theorem Describes.covers_iff (describes : a.Describes d) (busy : a.state ≠ .idle) (seq : Seq) :
    d.covers seq = true ↔ a.startSeq ≤ seq ∧ ∀ n, a.state = .accumulating n → seq < n := by
  unfold PduDescriptor.covers
  rw [Bool.and_eq_true, decide_eq_true_eq, describes.seq]
  refine and_congr_right fun _ => ?_
  cases state : a.state with
  | idle => exact absurd state busy
  | waiting =>
      rw [describes.waiting state]
      exact iff_of_true rfl nofun
  | accumulating n =>
      rw [(describes.accumulating n state).1]
      simp

/-- **When the caller can ask**: if a PDU is open, and does not end behind the wrap. -/
theorem InStep.isSome_requestEntireSegment?_iff (h : a.InStep) :
    a.requestEntireSegment?.isSome = true ↔ a.state ≠ .idle ∧ a.EndsAhead := by
  unfold requestEntireSegment?
  by_cases idle : a.state = .idle
  · simp only [idle, if_true]
    split <;> simp
  · obtain ⟨d, only, describes⟩ := h.described idle
    have covers := describes.covers_iff idle a.startSeq
    rw [covering?_of_only only]
    by_cases covered : d.covers a.startSeq = true
    · rw [if_pos covered]
      dsimp only
      rw [if_neg idle]
      exact iff_of_true rfl ⟨idle, (covers.1 covered).2⟩
    · rw [if_neg covered]
      refine iff_of_false Bool.false_ne_true fun ahead => covered ?_
      exact covers.2 ⟨BitVec.le_refl _, ahead.2⟩

theorem InStep.marksOpen_iff (h : a.InStep) : a.MarksOpen ↔ a.EndsAhead := by
  unfold MarksOpen
  rw [h.isSome_requestEntireSegment?_iff]
  constructor
  · intro tells n state
    exact (tells.2 (by rw [state]; nofun)).2 n state
  · intro ahead
    exact and_iff_left ahead

/-! ### Setting the flag -/

/-- A PDU is open, and its descriptor can be found at its start and carries the flag. -/
structure Flagged (a : Assembler) : Prop where
  inStep : a.InStep
  busy : a.state ≠ .idle
  ahead : a.EndsAhead
  flagged : ∀ d ∈ a.descriptors.entries, d.takesEntireSegment = true

/-- The caller's request sets the flag. -/
theorem InStep.flagged_of_marked (h : a.InStep) {b : Assembler}
    (accepted : a.requestEntireSegment? = some b) : b.Flagged := by
  obtain ⟨busy, ahead⟩ := h.isSome_requestEntireSegment?_iff.1 (accepted ▸ rfl)
  have inStep := h.requestEntireSegment
  rw [accepted, Option.getD_some] at inStep
  unfold requestEntireSegment? at accepted
  split at accepted
  · rename_i d covering
    rw [if_neg busy] at accepted
    obtain rfl := Option.some.inj accepted
    refine ⟨inStep, busy, ahead, fun e mem => ?_⟩
    obtain ⟨e', only, describes⟩ := h.described busy
    obtain rfl : d = e' := List.mem_singleton.1 (only ▸ mem_of_covering? covering)
    have only' := h.oneDescriptor.insert (d := d.requestEntireSegment) describes.seq
    obtain rfl := List.mem_singleton.1 (only' ▸ mem)
    exact d.takesEntireSegment_requestEntireSegment
  · cases accepted

/-- So does the verdict of the probe, at the end of the feed. -/
theorem flagged_drain (one : a.OneDescriptor)
    (waiting : (a.drain framing probe frame time).assembler.state = .waiting)
    (bounded : (a.drain framing probe frame time).assembler.untilClose = false)
    (unknown : Front.ofProbe framing probe (a.drain framing probe frame time).assembler.buffer =
      .unknown true) :
    ∀ d ∈ (a.drain framing probe frame time).assembler.descriptors.entries,
      d.takesEntireSegment = true := by
  fun_induction Assembler.drain a framing probe frame time with
  | case1 a empty => cases waiting
  | case2 a nonempty n front short => cases waiting
  | case3 a nonempty n front whole shorter rest ih =>
      exact ih (Or.inl (one.afterCut n frame)) waiting bounded unknown
  | case4 a nonempty entire front =>
      have asked : Front.unknown entire = .unknown true := by
        unfold Assembler.front at front
        split at front
        · cases front
        all_goals exact front.symm.trans unknown
      obtain rfl := Front.unknown.inj asked
      intro d mem
      have only := OneDescriptor.insert (a := { a with state := .waiting }) one (d := {
        seq := a.startSeq
        nextPdu := none
        firstFrame := a.firstFrame
        lastFrame := frame
        lastFrameTime := time
        flags := PduDescriptor.entireSegment }) rfl
      obtain rfl := List.mem_singleton.1 (only ▸ mem)
      exact PduDescriptor.takesEntireSegment_of_flags rfl
  | case5 a nonempty front => cases bounded
  | case6 a nonempty declared front => cases waiting

/-- Where a request was made, the flag is set. -/
theorem InStep.flagged_of_asks (h : a.InStep) {b : Assembler} (asks : a.Asks b)
    (bounded : b.untilClose = false) : b.Flagged := by
  cases asks with
  | marked accepted => exact h.flagged_of_marked accepted
  | @verdict framing probe c ends =>
      refine ⟨h.feed framing probe c, by rw [ends.waiting]; nofun, fun n state => ?_, ?_⟩
      · rw [ends.waiting] at state
        cases state
      · have unknown : Front.ofProbe framing probe (a.feed framing probe c).assembler.buffer =
            .unknown true := by
          unfold Front.ofProbe
          rw [if_neg (Nat.not_lt.2 ends.header), ends.verdict]
        have waiting := ends.waiting
        rcases a.feed_cases framing probe ends.nonempty with
          ⟨alone, -⟩ | ⟨-, fed | ⟨b, joined, fed⟩⟩
        · rw [ends.desegment] at alone
          cases alone
        · rw [fed] at bounded
          cases bounded
        · rw [fed] at bounded waiting unknown ⊢
          exact flagged_drain (joined.oneDescriptor h) waiting bounded unknown

/-! ### Draining what was closed, and what was not -/

theorem drain_of_length (nonempty : a.buffer ≠ []) {n : Nat}
    (front : a.front framing probe = .length n) :
    a.drain framing probe frame time =
      if a.buffer.length < n then { assembler := a.await n frame time }
      else
        let rest := (a.afterCut n frame).drain framing probe frame time
        { rest with pdus := a.cut n frame :: rest.pdus, delivered := rest.delivered + 1 } := by
  rw [Assembler.drain, dif_neg nonempty]
  split
  · rename_i n' front'
    obtain rfl := Front.length.inj (front.symm.trans front')
    rfl
  all_goals
    rename_i front'
    cases front.symm.trans front'

theorem drain_of_unknown (nonempty : a.buffer ≠ []) {entire : Bool}
    (front : a.front framing probe = .unknown entire) :
    a.drain framing probe frame time =
      { assembler :=
          a.wait frame time (if entire then PduDescriptor.entireSegment else 0) } := by
  rw [Assembler.drain, dif_neg nonempty]
  split
  · rename_i front'
    cases front.symm.trans front'
  · rename_i entire' front'
    obtain rfl := Front.unknown.inj (front.symm.trans front')
    rfl
  all_goals
    rename_i front'
    cases front.symm.trans front'

/-- What was closed at its last byte is one PDU. -/
theorem drain_of_closed (one : a.OneDescriptor) (nonempty : a.buffer ≠ [])
    (small : a.buffer.length < maxPduLen)
    (closed : a.state = .accumulating (advance a.startSeq a.buffer.length)) :
    (a.drain framing probe frame time).pdus =
        [⟨a.startSeq, a.buffer, a.firstFrame, frame, true⟩] ∧
      (a.drain framing probe frame time).error = none ∧
      (a.drain framing probe frame time).assembler.IsEmpty := by
  have front : a.front framing probe = .length a.buffer.length := by
    unfold Assembler.front
    rw [closed]
    exact congrArg _ (toNat_advance_sub_self a.startSeq small)
  have left : (a.afterCut a.buffer.length frame).buffer = [] := List.drop_length
  have described := one.afterCut a.buffer.length frame
  have whole : a.cut a.buffer.length frame = ⟨a.startSeq, a.buffer, a.firstFrame, frame, true⟩ := by
    unfold Assembler.cut
    rw [List.take_length]
  rw [drain_of_length nonempty front, if_neg (Nat.lt_irrefl _), Assembler.drain, dif_pos left, whole]
  exact ⟨rfl, rfl, rfl, left, congrArg PduTable.mk described⟩

/-- A probe that never tells delivers what was collected as one PDU only if its length was known, and a
known length fits the sequence space. -/
theorem pdus_drain_ne_whole (nonempty : a.buffer ≠ [])
    (unclosed : (∀ n, a.state ≠ .accumulating n) ∨ maxPduLen ≤ a.buffer.length) {pdu : Pdu}
    (whole : pdu.data = a.buffer) :
    (a.drain framing (fun _ => .needMore) frame time).pdus ≠ [pdu] := by
  have silent : Front.ofProbe framing (fun _ => .needMore) a.buffer = .unknown false := by
    unfold Front.ofProbe
    split <;> rfl
  by_cases known : ∃ n, a.state = .accumulating n
  · obtain ⟨n, state⟩ := known
    have front : a.front framing (fun _ => .needMore) = .length (n - a.startSeq).toNat := by
      unfold Assembler.front
      rw [state]
    have long : maxPduLen ≤ a.buffer.length := unclosed.resolve_left fun never => never n state
    rw [drain_of_length nonempty front]
    split
    · nofun
    · intro same
      have cut := congrArg (·.data.length) (List.cons.inj same).1
      have small : (n - a.startSeq).toNat < maxPduLen := (n - a.startSeq).isLt
      dsimp only [Assembler.cut] at cut
      rw [whole, List.length_take] at cut
      omega
  · have front : a.front framing (fun _ => .needMore) = .unknown false := by
      unfold Assembler.front
      split
      · rename_i n state
        exact absurd ⟨n, state⟩ known
      all_goals exact silent
    rw [drain_of_unknown nonempty front]
    nofun

/-! ### The next chunk -/

/-- The assembler with a chunk taken in, about to cut PDUs off. -/
def takeIn (a : Assembler) (c : Chunk) : Assembler :=
  let (b, entire) := (a.start c).append c
  if entire then b.closeAtBuffered else b

theorem feed_eq_drain_takeIn (open_ : a.untilClose = false) (nonempty : c.data ≠ [])
    (desegment : framing.desegment = true) (bounded : framing.untilClose = false) :
    a.feed framing probe c = (a.takeIn c).drain framing probe c.frame c.timestamp := by
  obtain ⟨descriptors, appended⟩ := (a.start c).append_eq c
  have taken : ((a.start c).append c).1.untilClose = false := by
    rw [appended]
    unfold Assembler.start
    split <;> exact open_
  unfold feed takeIn
  rw [if_neg nonempty, desegment, bounded]
  dsimp only
  rw [taken]
  rfl

/-- What is taken in is put behind what was collected, and stays described where it begins. -/
theorem InStep.takeIn (h : a.InStep) (busy : a.state ≠ .idle) (c : Chunk) :
    (a.takeIn c).buffer = a.buffer ++ c.data ∧ (a.takeIn c).startSeq = a.startSeq ∧
      (a.takeIn c).firstFrame = a.firstFrame ∧ (a.takeIn c).OneDescriptor := by
  have started : a.start c = a := if_neg busy
  have one := h.oneDescriptor.append c
  obtain ⟨descriptors, appended⟩ := a.append_eq c
  unfold Assembler.takeIn
  dsimp only
  rw [started]
  rw [appended] at one ⊢
  split
  · obtain ⟨state, closed⟩ :=
      closeAtBuffered_eq { a with buffer := a.buffer ++ c.data, descriptors }
    rw [closed]
    exact ⟨rfl, rfl, rfl, one⟩
  · exact ⟨rfl, rfl, rfl, one⟩

/-- **When the request is seen**: the PDU is closed behind the chunk exactly if its descriptor covers the
chunk and all of it fits the sequence space. -/
theorem Flagged.state_takeIn (h : a.Flagged) (only : a.descriptors.entries = [d]) (c : Chunk) :
    (a.takeIn c).state =
      if d.covers c.seq = true ∧ (a.buffer ++ c.data).length < maxPduLen then
        .accumulating (advance a.startSeq (a.buffer ++ c.data).length)
      else a.state := by
  have started : a.start c = a := if_neg h.busy
  have flag := h.flagged d (only ▸ List.mem_singleton_self d)
  unfold Assembler.takeIn Assembler.append
  rw [started]
  dsimp only
  rw [covering?_of_only only]
  by_cases covered : d.covers c.seq = true
  · rw [if_pos covered]
    dsimp only
    rw [if_pos flag, closeAtBuffered]
    by_cases small : (a.buffer ++ c.data).length < maxPduLen
    · rw [if_pos ⟨h.busy, small⟩, if_pos ⟨covered, small⟩]
    · rw [if_neg fun both => small both.2, if_neg fun both => small both.2]
  · rw [if_neg covered]
    dsimp only
    rw [if_neg Bool.false_ne_true, if_neg fun both => covered both.1]

/-! ### The condition -/

/-- What is collected ends in front of the wrap, and together with the chunk it fits the sequence space. -/
def Fits (a : Assembler) (c : Chunk) : Prop :=
  a.startSeq.toNat + a.buffer.length < 0x100000000 ∧ a.buffer.length + c.data.length < maxPduLen

/-- What is collected of a PDU that does not end behind the wrap ends in front of its end, as numbers. -/
theorem Flagged.lt_of_accumulating (h : a.Flagged) {n : Seq} (state : a.state = .accumulating n) :
    a.startSeq.toNat + a.buffer.length < n.toNat := by
  obtain ⟨d, -, describes⟩ := h.inStep.described h.busy
  have short := (describes.accumulating n state).2.2
  rw [BitVec.toNat_sub_of_le (BitVec.le_of_lt (h.ahead n state))] at short
  omega

/-- A PDU that does not end behind the wrap but has come up to it is of unknown length. -/
theorem Flagged.ne_accumulating (h : a.Flagged)
    (wrapped : ¬ a.startSeq.toNat + a.buffer.length < 0x100000000) (n : Seq) :
    a.state ≠ .accumulating n := fun state =>
  wrapped (Nat.lt_trans (h.lt_of_accumulating state) n.isLt)

/-- The descriptor covers the chunk that comes next, unless that lies behind the wrap. -/
theorem Flagged.covers_next_iff (h : a.Flagged) (only : a.descriptors.entries = [d])
    (follows : c.seq = advance a.startSeq a.buffer.length) (small : a.buffer.length < maxPduLen) :
    d.covers c.seq = true ↔ a.startSeq.toNat + a.buffer.length < 0x100000000 := by
  obtain ⟨e, only', describes⟩ := h.inStep.described h.busy
  obtain rfl : d = e := List.singleton_inj.1 (only.symm.trans only')
  have start := a.startSeq.isLt
  have next : c.seq.toNat = (a.startSeq.toNat + a.buffer.length) % 0x100000000 := by
    rw [follows, advance, BitVec.toNat_add, BitVec.toNat_ofNat]
    omega
  have space : maxPduLen = 0x100000000 := rfl
  rw [describes.covers_iff h.busy, BitVec.le_def]
  constructor
  · rintro ⟨le, -⟩
    omega
  · intro unwrapped
    refine ⟨by omega, fun n state => BitVec.lt_def.2 ?_⟩
    have inside := h.lt_of_accumulating state
    omega

end Assembler

open Assembler

/-- **When a request is honoured**: exactly if what was collected ends in front of the wrap and the whole PDU
fits the sequence space. -/
theorem EntireRequest.honoured_iff_fits (r : EntireRequest) :
    r.Honoured ↔ r.assembler.Fits r.chunk := by
  have flagged := (inStep_callAll r.calls).1.flagged_of_asks r.asked r.bounded
  obtain ⟨d, only, -⟩ := flagged.inStep.described flagged.busy
  obtain ⟨buffer, startSeq, firstFrame, one⟩ := flagged.inStep.takeIn flagged.busy r.chunk
  have state := flagged.state_takeIn only r.chunk
  have nonempty : (r.assembler.takeIn r.chunk).buffer ≠ [] := by
    rw [buffer]
    exact fun none => r.nonempty (List.append_eq_nil_iff.1 none).2
  have total : (r.assembler.buffer ++ r.chunk.data).length =
      r.assembler.buffer.length + r.chunk.data.length := List.length_append
  constructor
  · -- a probe that never tells shows whether the request was seen
    intro honoured
    by_contra unfit
    have whole := (honoured {} (fun _ => .needMore) rfl rfl).pdus
    rw [feed_eq_drain_takeIn r.bounded r.nonempty rfl rfl] at whole
    refine pdus_drain_ne_whole nonempty ?_ buffer.symm whole
    rw [buffer]
    by_cases small : (r.assembler.buffer ++ r.chunk.data).length < maxPduLen
    · have wrapped : ¬ r.assembler.startSeq.toNat + r.assembler.buffer.length < 0x100000000 :=
        fun unwrapped => unfit ⟨unwrapped, total ▸ small⟩
      have unseen : ¬ d.covers r.chunk.seq = true := fun covered =>
        wrapped ((flagged.covers_next_iff only r.follows (by omega)).1 covered)
      rw [state, if_neg fun both => unseen both.1]
      exact Or.inl (flagged.ne_accumulating wrapped)
    · exact Or.inr (Nat.not_lt.1 small)
  · rintro ⟨unwrapped, small⟩ framing probe desegment bounded
    have covered := (flagged.covers_next_iff only r.follows (by omega)).2 unwrapped
    rw [if_pos ⟨covered, total.symm ▸ small⟩, ← startSeq, ← buffer] at state
    obtain ⟨pdus, error, isEmpty⟩ := drain_of_closed one nonempty
      (by rw [buffer, total]; exact small) state
    rw [feed_eq_drain_takeIn r.bounded r.nonempty desegment bounded]
    rw [buffer, startSeq, firstFrame] at pdus
    exact ⟨pdus, error, isEmpty⟩

/-- **Requests for the whole next segment.**  After any calls, a request by the caller tells whether a PDU is
open exactly if the PDU does not end behind the wrap.  And whoever made a request, it is honoured exactly if
what was collected ends in front of the wrap and the whole PDU fits the sequence space. -/
theorem marksOpen_iff_and_honoured_iff (calls : List AssemblerCall) (r : EntireRequest) :
    ((callAll {} calls).MarksOpen ↔ (callAll {} calls).EndsAhead) ∧
      (r.Honoured ↔ r.assembler.Fits r.chunk) :=
  ⟨(inStep_callAll calls).1.marksOpen_iff, r.honoured_iff_fits⟩

/-- Two bytes in front of the wrap begin a PDU of eight, which the caller is told does not exist; or they
begin one that asks for the whole next segment, and that is not taken whole. -/
theorem not_marksOpen_and_not_honoured :
    (¬ ∀ calls, (callAll {} calls).untilClose = false → (callAll {} calls).MarksOpen) ∧
      ¬ ∀ r : EntireRequest, r.Honoured := by
  constructor
  · intro tells
    let c : Chunk := ⟨0xfffffffe, 1, 1, [8, 10]⟩
    let probe : LengthProbe := fun _ => .known 8
    have fed : feed {} {} probe c = { assembler := {
        state := .accumulating 6
        buffer := [8, 10]
        startSeq := 0xfffffffe
        firstFrame := 1
        descriptors := ⟨[⟨0xfffffffe, some 6, 1, 1, 1, 0⟩]⟩ } } :=
      Option.some.inj ((feedWithin_eq {} {} probe c).symm.trans (by decide))
    have after : callAll {} [.feed {} probe c] = (feed {} {} probe c).assembler := rfl
    have marks := tells [.feed {} probe c] (by rw [after, fed])
    rw [after, fed] at marks
    revert marks
    unfold MarksOpen
    decide
  · intro honoured
    let c : Chunk := ⟨0xfffffffe, 1, 1, [254, 10]⟩
    let probe : LengthProbe := fun _ => .oneMoreSegment
    have fed : feed {} {} probe c = { assembler := {
        state := .waiting
        buffer := [254, 10]
        startSeq := 0xfffffffe
        firstFrame := 1
        descriptors := ⟨[⟨0xfffffffe, none, 1, 1, 1, 1⟩]⟩ } } :=
      Option.some.inj ((feedWithin_eq {} {} probe c).symm.trans (by decide))
    have after : callAll {} [.feed {} probe c] = (feed {} {} probe c).assembler := rfl
    let r : EntireRequest := {
      calls := [.feed {} probe c]
      assembler := (feed {} {} probe c).assembler
      asked := .marked (by rw [after, fed]; decide)
      bounded := by rw [fed]
      chunk := ⟨0, 2, 2, [11, 12]⟩
      nonempty := by decide
      follows := by rw [fed]; decide }
    have fits := r.honoured_iff_fits.1 (honoured r)
    have unwrapped : (feed {} {} probe c).assembler.startSeq.toNat +
        (feed {} {} probe c).assembler.buffer.length < 0x100000000 := fits.1
    rw [fed] at unwrapped
    revert unwrapped
    decide

end TcpCapture
