import TcpCapture.Proofs.Pdu.BadLength

/-!
# The open PDU

What an assembler knows of the PDU it collects is spread over its state, its bytes, the position of the
first of them and a table of descriptors.  Whatever it is asked to do, these tell the same story: there
is an open PDU, with one descriptor, or there is nothing.

## Main definitions

* `AssemblerCall`, `Assembler.callAll` — what an assembler is asked to do, and the assembler after it
* `Assembler.Describes`, `Assembler.InStep` — a descriptor fits the state; everything fits together
* `Assembler.feedWithin` — feeding with a bound on the turns of its loops
* `Assembler.inStep_callAll` — every run keeps the assembler in step, and every feed ends

**One descriptor at most.**  A descriptor is written at the position of the first byte collected.  That
position only moves while there is none: when a chunk opens a PDU, and when a PDU was cut off and its
descriptor erased.  So writing one never leaves a second one behind.
-/

namespace TcpCapture

/-- What an assembler may be asked to do. -/
inductive AssemblerCall where
  | feed (framing : Framing) (probe : LengthProbe) (chunk : Chunk)
  | close (lastFrame : Nat)
  | discard
  | requestEntireSegment

namespace Assembler

/-- The assembler after a call. -/
def call (a : Assembler) : AssemblerCall → Assembler
  | .feed framing probe c => (a.feed framing probe c).assembler
  | .close lastFrame => (a.close lastFrame).assembler
  | .discard => a.discard
  | .requestEntireSegment => a.requestEntireSegment?.getD a

/-- The assembler after some calls. -/
def callAll (a : Assembler) (calls : List AssemblerCall) : Assembler := calls.foldl call a

theorem callAll_concat (a : Assembler) (calls : List AssemblerCall) (call : AssemblerCall) :
    a.callAll (calls ++ [call]) = (a.callAll calls).call call := List.foldl_append

/-! ### State, bytes and descriptors -/

/-- The descriptor lies where the collected bytes begin, and knows the end of the PDU if the state
does.  A PDU with a known end has some of its bytes and misses others. -/
structure Describes (a : Assembler) (d : PduDescriptor) : Prop where
  seq : d.seq = a.startSeq
  waiting : a.state = .waiting → d.nextPdu = none
  accumulating : ∀ n, a.state = .accumulating n → d.nextPdu = some n ∧
    0 < a.buffer.length ∧ a.buffer.length < (n - a.startSeq).toNat

/-- Nothing is collected and nothing described, or there is an open PDU with its only descriptor. -/
structure InStep (a : Assembler) : Prop where
  idle_iff_buffer : a.state = .idle ↔ a.buffer = []
  buffer_iff_descriptors : a.buffer = [] ↔ a.descriptors.entries = []
  described : a.state ≠ .idle → ∃ d, a.descriptors.entries = [d] ∧ a.Describes d

/-- There is one descriptor at most, where the collected bytes begin. -/
def OneDescriptor (a : Assembler) : Prop :=
  a.descriptors.entries = [] ∨ ∃ d, a.descriptors.entries = [d] ∧ d.seq = a.startSeq

theorem IsEmpty.inStep {a : Assembler} (h : a.IsEmpty) : a.InStep where
  idle_iff_buffer := iff_of_true h.state h.buffer
  buffer_iff_descriptors := iff_of_true h.buffer (congrArg PduTable.entries h.descriptors)
  described busy := absurd h.state busy

theorem InStep.oneDescriptor {a : Assembler} (h : a.InStep) : a.OneDescriptor := by
  by_cases idle : a.state = .idle
  · exact Or.inl (h.buffer_iff_descriptors.1 (h.idle_iff_buffer.1 idle))
  · obtain ⟨d, only, describes⟩ := h.described idle
    exact Or.inr ⟨d, only, describes.seq⟩

/-- An assembler with collected bytes and one fitting descriptor is in step. -/
theorem InStep.of_describes {a : Assembler} {d : PduDescriptor} (collected : a.buffer ≠ [])
    (busy : a.state ≠ .idle) (only : a.descriptors.entries = [d]) (describes : a.Describes d) :
    a.InStep where
  idle_iff_buffer := iff_of_false busy collected
  buffer_iff_descriptors := iff_of_false collected (only ▸ List.cons_ne_nil d [])
  described _ := ⟨d, only, describes⟩

section

variable {a : Assembler} (one : a.OneDescriptor)

include one

/-- A descriptor written where the collected bytes begin is the only one. -/
theorem OneDescriptor.insert {d : PduDescriptor} (seq : d.seq = a.startSeq) :
    (a.descriptors.insert d).entries = [d] := by
  unfold PduTable.insert
  rcases one with none | ⟨e, only, seq'⟩
  · rw [none]
    rfl
  · have same : d.seq = e.seq := seq.trans seq'.symm
    rw [only, PduTable.insertSorted, if_neg (same ▸ BitVec.lt_irrefl _), if_pos same]

/-- Once the PDU at the front is cut off there is none. -/
theorem OneDescriptor.afterCut (n frame : Nat) : (a.afterCut n frame).descriptors.entries = [] := by
  show a.descriptors.entries.filter (·.seq != a.startSeq) = []
  rcases one with none | ⟨d, only, seq⟩
  · rw [none]
    rfl
  · rw [only, List.filter_singleton, seq, bne_self_eq_false]
    rfl

theorem OneDescriptor.wait (collected : a.buffer ≠ []) (frame time : Nat) (flags : BitVec 32) :
    (a.wait frame time flags).InStep :=
  .of_describes collected (by rintro ⟨⟩)
    (OneDescriptor.insert (a := { a with state := .waiting }) one rfl) ⟨rfl, fun _ => rfl, nofun⟩

theorem OneDescriptor.await (collected : a.buffer ≠ []) {n : Nat} (short : a.buffer.length < n)
    (small : n < maxPduLen) (frame time : Nat) : (a.await n frame time).InStep := by
  refine .of_describes collected (by rintro ⟨⟩)
    (OneDescriptor.insert (a := { a with state := .accumulating (advance a.startSeq n) }) one rfl)
    ⟨rfl, nofun, ?_⟩
  rintro next ⟨⟩
  refine ⟨rfl, List.length_pos_iff.2 collected, ?_⟩
  show a.buffer.length < (advance a.startSeq n - a.startSeq).toNat
  rw [toNat_advance_sub_self a.startSeq small]
  exact short

end

/-- A length the assembler goes by fits the sequence space. -/
theorem lt_of_front {a : Assembler} {framing : Framing} {probe : LengthProbe} {n : Nat}
    (front : a.front framing probe = .length n) : n < maxPduLen := by
  have ofProbe : Front.ofProbe framing probe a.buffer = .length n → n < maxPduLen := by
    unfold Front.ofProbe
    split
    · nofun
    · split
      · split
        · rename_i fits
          rintro ⟨⟩
          exact fits.2.1
        · nofun
      all_goals nofun
  unfold Assembler.front at front
  split at front
  · cases front
    exact BitVec.isLt _
  all_goals exact ofProbe front

/-! ### Each call keeps them in step -/

variable {a : Assembler} {framing : Framing} {probe : LengthProbe}

/-- Draining puts state and descriptors in step with what is left. -/
theorem inStep_drain {frame time : Nat} (one : a.OneDescriptor)
    (bare : a.buffer = [] → a.descriptors.entries = []) :
    (a.drain framing probe frame time).assembler.InStep := by
  fun_induction Assembler.drain a framing probe frame time with
  | case1 a empty =>
      exact ⟨iff_of_true rfl empty, iff_of_true empty (bare empty), fun busy => absurd rfl busy⟩
  | case2 a nonempty n front short => exact one.await nonempty short (lt_of_front front) frame time
  | case3 a nonempty n front whole shorter rest ih =>
      exact ih (Or.inl (one.afterCut n frame)) fun _ => one.afterCut n frame
  | case4 a nonempty entire front => exact one.wait nonempty frame time _
  | case5 a nonempty front =>
      exact OneDescriptor.wait (a := { a with untilClose := true }) one nonempty frame time 0
  | case6 a nonempty declared front => exact a.isEmpty_discard.inStep

/-- A chunk that opens a PDU finds no descriptor. -/
theorem InStep.startChunk (h : a.InStep) (c : Chunk) : (a.start c).OneDescriptor := by
  unfold Assembler.start
  split
  · rename_i idle
    exact Or.inl (h.buffer_iff_descriptors.1 (h.idle_iff_buffer.1 idle))
  · exact h.oneDescriptor

theorem OneDescriptor.append (one : a.OneDescriptor) (c : Chunk) :
    (a.append c).1.OneDescriptor := by
  unfold Assembler.append
  dsimp only
  split
  · exact one
  · rename_i d covering
    have seq : (d.extend c.frame c.timestamp).seq = a.startSeq := by
      have mem := mem_of_covering? covering
      rcases one with none | ⟨e, only, seq⟩
      · rw [none] at mem
        cases mem
      · rw [only] at mem
        exact List.mem_singleton.1 mem ▸ seq
    exact Or.inr ⟨d.extend c.frame c.timestamp, one.insert seq, seq⟩

/-- Taking a chunk in leaves one descriptor at most. -/
theorem Joined.oneDescriptor {b : Assembler} {c : Chunk} (joined : a.Joined c b) (h : a.InStep) :
    b.OneDescriptor := by
  have one := (h.startChunk c).append c
  obtain ⟨descriptors, appended⟩ := (a.start c).append_eq c
  unfold OneDescriptor
  rw [joined.descriptors, joined.startSeq]
  rw [appended] at one ⊢
  exact one

/-- A chunk keeps state, bytes and descriptors in step. -/
theorem InStep.feed (h : a.InStep) (framing : Framing) (probe : LengthProbe) (c : Chunk) :
    (a.feed framing probe c).assembler.InStep := by
  by_cases empty : c.data = []
  · rw [Assembler.feed, if_pos empty]
    exact h
  · have collected : a.buffer ++ c.data ≠ [] := fun none => empty (List.append_eq_nil_iff.1 none).2
    rcases a.feed_cases framing probe empty with ⟨-, fed⟩ | ⟨-, fed | ⟨b, joined, fed⟩⟩
    · rw [fed]
      exact h
    · rw [fed]
      exact OneDescriptor.wait (a := { ((a.start c).append c).1 with untilClose := true })
        ((h.startChunk c).append c) (a.buffer_start_append c ▸ collected) _ _ 0
    · rw [fed]
      refine inStep_drain (joined.oneDescriptor h) fun none => absurd none ?_
      exact joined.buffer ▸ collected

/-- Asking for the whole next segment only sets a flag of the descriptor. -/
theorem InStep.requestEntireSegment (h : a.InStep) : (a.requestEntireSegment?.getD a).InStep := by
  unfold requestEntireSegment?
  split
  · rename_i d covering
    split
    · exact h
    · rename_i busy
      obtain ⟨e, only, describes⟩ := h.described busy
      obtain rfl : d = e := List.mem_singleton.1 (only ▸ mem_of_covering? covering)
      refine .of_describes (fun none => busy (h.idle_iff_buffer.2 none)) busy
        (h.oneDescriptor.insert (d := d.requestEntireSegment) describes.seq) ?_
      exact ⟨describes.seq, describes.waiting, describes.accumulating⟩
  · exact h

/-- **Each call keeps the assembler in step.** -/
theorem InStep.call (h : a.InStep) (request : AssemblerCall) : (a.call request).InStep := by
  cases request with
  | feed framing probe c => exact h.feed framing probe c
  | close lastFrame => exact (a.isEmpty_close lastFrame).inStep
  | discard => exact a.isEmpty_discard.inStep
  | requestEntireSegment => exact h.requestEntireSegment

theorem InStep.callAll (h : a.InStep) (calls : List AssemblerCall) : (a.callAll calls).InStep := by
  induction calls using List.reverseRecOn with
  | nil => exact h
  | append_singleton calls call ih =>
      rw [callAll_concat]
      exact ih.call call

/-- Giving everything up drops one PDU if there is an open one. -/
theorem InStep.openPdus_eq (h : a.InStep) : a.openPdus = if a.state = .idle then 0 else 1 := by
  unfold openPdus PduTable.size
  split
  · rename_i idle
    rw [h.buffer_iff_descriptors.1 (h.idle_iff_buffer.1 idle)]
    rfl
  · rename_i busy
    obtain ⟨d, only, -⟩ := h.described busy
    rw [only]
    rfl

/-! ### Loops end -/

/-- Draining with a bound on the turns of the loop. -/
def drainWithin (framing : Framing) (probe : LengthProbe) (frame time : Nat) :
    Nat → Assembler → Option Outcome
  | 0, _ => none
  | turns + 1, a =>
    if a.buffer = [] then some { assembler := { a with state := .idle } }
    else
      match a.front framing probe with
      | .length n =>
        if a.buffer.length < n then some { assembler := a.await n frame time }
        else
          (drainWithin framing probe frame time turns (a.afterCut n frame)).map fun rest =>
            { rest with pdus := a.cut n frame :: rest.pdus, delivered := rest.delivered + 1 }
      | .unknown entire =>
        some { assembler := a.wait frame time (if entire then PduDescriptor.entireSegment else 0) }
      | .endless => some { assembler := { a with untilClose := true }.wait frame time 0 }
      | .malformed declared =>
        some { assembler := a.discard, error := some (.badPduLength declared framing.fixedLen) }

/-- Cutting a segment that stands alone, with a bound on the turns of the loop. -/
def piecesWithin (framing : Framing) (probe : LengthProbe) (frame : Nat) :
    Nat → Seq → List UInt8 → Option (List Pdu)
  | 0, _, _ => none
  | turns + 1, seq, bytes =>
    if bytes = [] then some []
    else
      match wholeFront? framing probe bytes with
      | none => some [⟨seq, bytes, frame, frame, false⟩]
      | some n =>
        (piecesWithin framing probe frame turns (advance seq n) (bytes.drop n)).map
          (⟨seq, bytes.take n, frame, frame, true⟩ :: ·)

/-- Feeding with a bound on the turns of its loops. -/
def feedWithin (turns : Nat) (a : Assembler) (framing : Framing) (probe : LengthProbe) (c : Chunk) :
    Option Outcome :=
  if c.data = [] then some { assembler := a }
  else if !framing.desegment then
    (piecesWithin framing probe c.frame turns c.seq c.data).map fun pdus =>
      { assembler := a, pdus, delivered := pdus.length }
  else
    let (b, entire) := (a.start c).append c
    if b.untilClose || framing.untilClose then
      some { assembler := { b with untilClose := true }.wait c.frame c.timestamp 0 }
    else
      (if entire then b.closeAtBuffered else b).drainWithin framing probe c.frame c.timestamp turns

/-- Every turn but the last cuts a PDU off, which leaves less pending. -/
theorem drainWithin_eq {frame time turns : Nat} (enough : a.pending < turns) :
    a.drainWithin framing probe frame time turns = some (a.drain framing probe frame time) := by
  fun_induction Assembler.drain a framing probe frame time generalizing turns with
  | case1 a empty =>
      obtain ⟨turns, rfl⟩ := Nat.exists_eq_add_of_lt enough
      rw [drainWithin, if_pos empty]
  | case2 a nonempty n front short =>
      obtain ⟨turns, rfl⟩ := Nat.exists_eq_add_of_lt enough
      rw [drainWithin, if_neg nonempty, front]
      exact if_pos short
  | case3 a nonempty n front whole shorter rest =>
      rename_i ih
      obtain ⟨turns, rfl⟩ := Nat.exists_eq_add_of_lt enough
      rw [drainWithin, if_neg nonempty, front]
      dsimp only
      rw [if_neg whole, ih (by omega)]
      rfl
  | case4 a nonempty entire front =>
      obtain ⟨turns, rfl⟩ := Nat.exists_eq_add_of_lt enough
      rw [drainWithin, if_neg nonempty, front]
  | case5 a nonempty front =>
      obtain ⟨turns, rfl⟩ := Nat.exists_eq_add_of_lt enough
      rw [drainWithin, if_neg nonempty, front]
  | case6 a nonempty declared front =>
      obtain ⟨turns, rfl⟩ := Nat.exists_eq_add_of_lt enough
      rw [drainWithin, if_neg nonempty, front]

/-- Every turn takes a byte at least. -/
theorem piecesWithin_eq {frame turns : Nat} {seq : Seq} {bytes : List UInt8}
    (enough : bytes.length < turns) :
    piecesWithin framing probe frame turns seq bytes =
      some (pieces framing probe frame seq bytes) := by
  fun_induction pieces framing probe frame seq bytes generalizing turns with
  | case1 seq =>
      obtain ⟨turns, rfl⟩ := Nat.exists_eq_add_of_lt enough
      rw [piecesWithin, if_pos rfl]
  | case2 seq bytes nonempty none =>
      obtain ⟨turns, rfl⟩ := Nat.exists_eq_add_of_lt enough
      rw [piecesWithin, if_neg nonempty, none]
  | case3 seq bytes nonempty n whole shorter ih =>
      obtain ⟨turns, rfl⟩ := Nat.exists_eq_add_of_lt enough
      have left : (bytes.drop n).length = bytes.length - n := List.length_drop
      rw [piecesWithin, if_neg nonempty, whole]
      dsimp only
      rw [ih (by omega)]
      rfl

/-- The turns that feeding a chunk takes at most. -/
def turnsFor (a : Assembler) (c : Chunk) : Nat := 2 * (a.buffer.length + c.data.length) + 2

/-- **Every feed ends**, after a number of turns that the bytes at hand bound. -/
theorem feedWithin_eq (a : Assembler) (framing : Framing) (probe : LengthProbe) (c : Chunk) :
    a.feedWithin (a.turnsFor c) framing probe c = some (a.feed framing probe c) := by
  unfold feedWithin Assembler.feed
  split
  · rfl
  · split
    · rw [piecesWithin_eq (by unfold turnsFor; omega)]
      rfl
    · have buffer := congrArg List.length (a.buffer_start_append c)
      rw [List.length_append] at buffer
      dsimp only
      generalize (a.start c).append c = appended at buffer
      obtain ⟨b, entire⟩ := appended
      dsimp only at buffer ⊢
      have pending (b' : Assembler) (same : b'.buffer = b.buffer) : b'.pending < a.turnsFor c := by
        unfold Assembler.pending turnsFor
        rw [same]
        split <;> omega
      split
      · rfl
      · refine drainWithin_eq (pending _ ?_)
        split
        · obtain ⟨state, same⟩ := b.closeAtBuffered_eq
          rw [same]
        · rfl

/-- **The assembler never drifts apart.**  After any calls on a new assembler, with any probes and any
framing, it is idle exactly if it has collected nothing, and exactly if nothing is described; otherwise
it has one descriptor, which fits.  Giving everything up drops one PDU if there is an open one and none
otherwise, and every feed that comes next ends. -/
theorem inStep_callAll (calls : List AssemblerCall) :
    (callAll {} calls).InStep ∧
      (callAll {} calls).openPdus = (if (callAll {} calls).state = .idle then 0 else 1) ∧
      ∀ framing probe c, (callAll {} calls).feedWithin ((callAll {} calls).turnsFor c) framing probe c =
        some ((callAll {} calls).feed framing probe c) := by
  have new : InStep {} := IsEmpty.inStep ⟨rfl, rfl, rfl⟩
  have inStep := new.callAll calls
  exact ⟨inStep, inStep.openPdus_eq, fun framing probe c => feedWithin_eq _ framing probe c⟩

end Assembler

end TcpCapture
