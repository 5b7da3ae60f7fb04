import TcpCapture.Proofs.Pdu.Segmentation

/-!
# Lengths that cannot be framed

A declared length that is zero, too short for its header or too long for the sequence space ends the
chunk it is found in: what was collected is dropped, and the next chunk begins anew.

## Main definitions

* `Assembler.IsEmpty`, `Assembler.IsFresh` — nothing is collected; nor will it be until the end
* `Assembler.eachPdus` — the PDUs of chunks fed one after another, whatever comes of each

**Errors leave a fresh assembler.**  Which bytes led to the error, and where they were, no longer shows
in what is delivered afterwards.
-/

namespace TcpCapture

namespace Assembler

/-- Nothing is collected, and no PDU is open. -/
structure IsEmpty (a : Assembler) : Prop where
  state : a.state = .idle
  buffer : a.buffer = []
  descriptors : a.descriptors = {}

/-- Nothing is collected, and nothing is to be collected until the direction ends. -/
structure IsFresh (a : Assembler) : Prop extends IsEmpty a where
  untilClose : a.untilClose = false

theorem isEmpty_discard (a : Assembler) : a.discard.IsEmpty := ⟨rfl, rfl, rfl⟩

theorem isEmpty_close (a : Assembler) (frame : Nat) : (a.close frame).assembler.IsEmpty := by
  unfold close
  split
  · exact a.isEmpty_discard
  · exact a.isEmpty_discard

/-- The end of a direction with nothing collected delivers nothing. -/
theorem IsEmpty.close_pdu {a : Assembler} (h : a.IsEmpty) (frame : Nat) :
    (a.close frame).pdu = none := by
  unfold close
  rw [h.buffer]
  simp

section

variable {framing : Framing} {probe : LengthProbe} {a : Assembler}

theorem isEmpty_drain_of_error {frame time : Nat}
    (failed : (a.drain framing probe frame time).error ≠ none) :
    (a.drain framing probe frame time).assembler.IsEmpty ∧
      (a.drain framing probe frame time).assembler.untilClose = a.untilClose := by
  fun_induction Assembler.drain a framing probe frame time with
  | case1 a empty => exact absurd rfl failed
  | case2 a nonempty n front short => exact absurd rfl failed
  | case3 a nonempty n front whole shorter rest ih => exact ih failed
  | case4 a nonempty entire front => exact absurd rfl failed
  | case5 a nonempty front => exact absurd rfl failed
  | case6 a nonempty declared front => exact ⟨a.isEmpty_discard, rfl⟩

theorem closeAtBuffered_eq (a : Assembler) : ∃ state, a.closeAtBuffered = { a with state } := by
  unfold closeAtBuffered
  split
  · exact ⟨_, rfl⟩
  · exact ⟨a.state, rfl⟩

theorem append_eq (a : Assembler) (c : Chunk) : ∃ descriptors,
    (a.append c).1 = { a with buffer := a.buffer ++ c.data, descriptors } := by
  unfold Assembler.append
  dsimp only
  split
  · exact ⟨_, rfl⟩
  · exact ⟨_, rfl⟩

theorem buffer_start_append (a : Assembler) (c : Chunk) :
    ((a.start c).append c).1.buffer = a.buffer ++ c.data := by
  obtain ⟨descriptors, appended⟩ := (a.start c).append_eq c
  rw [appended]
  exact congrArg (· ++ c.data) (a.buffer_start c)

theorem state_start (a : Assembler) (c : Chunk) : (a.start c).state = a.state := by
  unfold Assembler.start
  split <;> rfl

/-- The assembler has taken a chunk in and is about to cut PDUs off.  A segment that was asked for as a
whole has made everything collected one PDU. -/
structure Joined (a : Assembler) (c : Chunk) (b : Assembler) : Prop where
  untilClose : b.untilClose = false
  buffer : b.buffer = a.buffer ++ c.data
  startSeq : b.startSeq = (a.start c).startSeq
  descriptors : b.descriptors = ((a.start c).append c).1.descriptors
  state : b.state = a.state ∨
    b.state = .accumulating (advance b.startSeq b.buffer.length) ∧ b.buffer.length < maxPduLen

/-- What the assembler makes of a chunk: it passes the pieces on, or it collects the chunk, until the
direction ends or to cut PDUs off. -/
theorem feed_cases (a : Assembler) (framing : Framing) (probe : LengthProbe) {c : Chunk}
    (nonempty : c.data ≠ []) :
    framing.desegment = false ∧
        a.feed framing probe c = {
          assembler := a
          pdus := pieces framing probe c.frame c.seq c.data
          delivered := (pieces framing probe c.frame c.seq c.data).length } ∨
      framing.desegment = true ∧
        (a.feed framing probe c = { assembler :=
            { ((a.start c).append c).1 with untilClose := true }.wait c.frame c.timestamp 0 } ∨
          ∃ b : Assembler, a.Joined c b ∧
            a.feed framing probe c = b.drain framing probe c.frame c.timestamp) := by
  have buffer := a.buffer_start_append c
  have state := a.state_start c
  obtain ⟨descriptors, appended⟩ := (a.start c).append_eq c
  unfold feed
  rw [if_neg nonempty]
  split
  · rename_i alone
    exact Or.inl ⟨by simpa using alone, rfl⟩
  · rename_i desegment
    refine Or.inr ⟨by simpa using desegment, ?_⟩
    dsimp only
    split
    · exact Or.inl rfl
    · rename_i bounded
      have joined : a.Joined c ((a.start c).append c).1 := {
        untilClose := by
          rw [Bool.or_eq_true, not_or, Bool.not_eq_true] at bounded
          exact bounded.1
        buffer
        startSeq := by rw [appended]
        descriptors := rfl
        state := Or.inl (by rw [appended, state]) }
      refine Or.inr ?_
      split
      · refine ⟨_, ?_, rfl⟩
        unfold closeAtBuffered
        split
        · rename_i closes
          exact { joined with state := Or.inr ⟨rfl, closes.2⟩ }
        · exact joined
      · exact ⟨_, joined, rfl⟩

/-- Only cutting PDUs off what was collected can fail. -/
theorem exists_drain_of_feed_error {c : Chunk} (failed : (a.feed framing probe c).error ≠ none) :
    framing.desegment = true ∧ ∃ b : Assembler, b.untilClose = false ∧
      a.feed framing probe c = b.drain framing probe c.frame c.timestamp := by
  by_cases empty : c.data = []
  · rw [feed, if_pos empty] at failed
    exact absurd rfl failed
  · rcases a.feed_cases framing probe empty with
      ⟨-, fed⟩ | ⟨desegment, fed | ⟨b, joined, fed⟩⟩
    · rw [fed] at failed
      exact absurd rfl failed
    · rw [fed] at failed
      exact absurd rfl failed
    · exact ⟨desegment, b, joined.untilClose, fed⟩

/-- **A chunk with a bad length leaves a fresh assembler.** -/
theorem isFresh_feed_of_error {c : Chunk} (failed : (a.feed framing probe c).error ≠ none) :
    (a.feed framing probe c).assembler.IsFresh := by
  obtain ⟨-, b, untilClose, fed⟩ := exists_drain_of_feed_error failed
  rw [fed] at failed ⊢
  obtain ⟨empty, same⟩ := isEmpty_drain_of_error failed
  exact ⟨empty, same.trans untilClose⟩

/-- A fresh assembler takes a chunk as one that has seen nothing does. -/
theorem IsFresh.feed_eq (h : a.IsFresh) (desegment : framing.desegment = true) {c : Chunk}
    (nonempty : c.data ≠ []) : a.feed framing probe c = feed {} framing probe c := by
  have started : a.start c = start {} c := by
    obtain ⟨⟨state, buffer, descriptors⟩, untilClose⟩ := h
    unfold start
    rw [if_pos state, if_pos rfl, state, buffer, descriptors, untilClose]
  rw [feed, feed, if_neg nonempty, if_neg nonempty, desegment, started]
  rfl

/-! ### Chunk by chunk -/

/-- The PDUs of some chunks, each of them fed whatever came of those before it. -/
def eachPdus (a : Assembler) (framing : Framing) (probe : LengthProbe) (chunks : List Chunk) :
    List Pdu :=
  (a.feeds framing probe chunks).flatMap (·.pdus)

theorem eachPdus_cons (a : Assembler) (c : Chunk) (rest : List Chunk) :
    a.eachPdus framing probe (c :: rest) =
      (a.feed framing probe c).pdus ++
        (a.feed framing probe c).assembler.eachPdus framing probe rest := rfl

theorem eachPdus_append (a : Assembler) (chunks more : List Chunk) :
    a.eachPdus framing probe (chunks ++ more) =
      a.eachPdus framing probe chunks ++
        (a.feedEach framing probe chunks).eachPdus framing probe more := by
  induction chunks generalizing a with
  | nil => rfl
  | cons c rest ih =>
      rw [List.cons_append, eachPdus_cons, ih, ← List.append_assoc]
      rfl

theorem feedEach_append (a : Assembler) (chunks more : List Chunk) :
    a.feedEach framing probe (chunks ++ more) =
      (a.feedEach framing probe chunks).feedEach framing probe more := List.foldl_append

theorem eachPdus_append_cons (a : Assembler) (front : List Chunk) (c : Chunk) (back : List Chunk) :
    a.eachPdus framing probe (front ++ c :: back) =
      a.eachPdus framing probe (front ++ [c]) ++
        ((a.feedEach framing probe front).feed framing probe c).assembler.eachPdus framing probe
          back := by
  rw [List.append_cons, eachPdus_append, feedEach_append]
  rfl

theorem IsFresh.eachPdus_eq (h : a.IsFresh) (desegment : framing.desegment = true)
    {chunks : List Chunk} (nonempty : ∀ c ∈ chunks, c.data ≠ []) :
    a.eachPdus framing probe chunks = eachPdus {} framing probe chunks := by
  cases chunks with
  | nil => rfl
  | cons c rest =>
      rw [eachPdus_cons, eachPdus_cons, h.feed_eq desegment (nonempty c List.mem_cons_self)]

/-! ### Batch by batch -/

/-- The PDUs of some batches of chunks, each of them fed up to its first error. -/
def batchPdus (a : Assembler) (framing : Framing) (probe : LengthProbe) : List (List Chunk) → List Pdu
  | [] => []
  | batch :: rest =>
    (a.feedAll framing probe batch).pdus ++
      (a.feedAll framing probe batch).assembler.batchPdus framing probe rest

/-- A batch is fed as a whole, or up to the chunk that fails. -/
theorem feedAll_cases (a : Assembler) (framing : Framing) (probe : LengthProbe)
    (batch : List Chunk) :
    ((a.feedAll framing probe batch).error = none ∧
        (a.feedAll framing probe batch).assembler = a.feedEach framing probe batch ∧
        (a.feedAll framing probe batch).pdus = a.eachPdus framing probe batch) ∨
      ∃ front c back, batch = front ++ c :: back ∧
        ((a.feedEach framing probe front).feed framing probe c).error ≠ none ∧
        (a.feedAll framing probe batch).assembler =
          ((a.feedEach framing probe front).feed framing probe c).assembler ∧
        (a.feedAll framing probe batch).pdus = a.eachPdus framing probe (front ++ [c]) := by
  induction batch generalizing a with
  | nil => exact Or.inl ⟨rfl, rfl, rfl⟩
  | cons c rest ih =>
      rw [feedAll]
      dsimp only
      split
      · rename_i failed
        exact Or.inr ⟨[], c, rest, rfl, Option.isSome_iff_ne_none.1 failed, rfl,
          (List.append_nil _).symm⟩
      · rcases ih (a.feed framing probe c).assembler with
          ⟨fine, fed, pdus⟩ | ⟨front, d, back, rfl, failed, fed, pdus⟩
        · exact Or.inl ⟨fine, fed, congrArg (_ ++ ·) pdus⟩
        · exact Or.inr ⟨c :: front, d, back, rfl, failed, fed, congrArg (_ ++ ·) pdus⟩

/-- Behind a bad length no PDU is framed, whichever of the later chunks framing resumes with. -/
def SilentBehindErrors (a : Assembler) (framing : Framing) (probe : LengthProbe)
    (chunks : List Chunk) : Prop :=
  ∀ front c back, chunks = front ++ c :: back →
    ((a.feedEach framing probe front).feed framing probe c).error ≠ none →
      ∀ rest, rest <:+ back → eachPdus {} framing probe rest = []

/-- Chunks that give nothing by themselves, whichever of them framing resumes with, give nothing in
batches. -/
theorem batchPdus_eq_nil {batches : List (List Chunk)}
    (nonempty : ∀ c ∈ batches.flatten, c.data ≠ [])
    (nothing : a.eachPdus framing probe batches.flatten = [])
    (silent : ∀ rest, rest <:+ batches.flatten → eachPdus {} framing probe rest = []) :
    a.batchPdus framing probe batches = [] := by
  induction batches generalizing a with
  | nil => rfl
  | cons batch rest ih =>
      rw [List.flatten_cons] at nonempty nothing silent
      have nonempty' : ∀ c ∈ rest.flatten, c.data ≠ [] :=
        fun c mem => nonempty c (List.mem_append_right _ mem)
      have silent' : ∀ chunks, chunks <:+ rest.flatten → eachPdus {} framing probe chunks = [] :=
        fun chunks behind => silent chunks (behind.trans (List.suffix_append _ _))
      rw [batchPdus, List.append_eq_nil_iff]
      rcases a.feedAll_cases framing probe batch with
        ⟨-, fed, pdus⟩ | ⟨front, c, back, rfl, failed, fed, pdus⟩
      · rw [eachPdus_append, List.append_eq_nil_iff] at nothing
        rw [fed, pdus]
        exact ⟨nothing.1, ih nonempty' nothing.2 silent'⟩
      · rw [List.append_assoc, List.cons_append, eachPdus_append_cons, List.append_eq_nil_iff]
          at nothing
        rw [fed, pdus]
        refine ⟨nothing.1, ih nonempty' ?_ silent'⟩
        -- what follows is fed to a fresh assembler
        have desegment := (exists_drain_of_feed_error failed).1
        rw [(isFresh_feed_of_error failed).eachPdus_eq desegment nonempty']
        exact silent' _ (List.suffix_refl _)

/-- **Batches give what their chunks give one by one, if behind a bad length there is nothing to
frame.** -/
theorem batchPdus_eq_eachPdus {batches : List (List Chunk)}
    (nonempty : ∀ c ∈ batches.flatten, c.data ≠ [])
    (silent : a.SilentBehindErrors framing probe batches.flatten) :
    a.batchPdus framing probe batches = a.eachPdus framing probe batches.flatten := by
  induction batches generalizing a with
  | nil => rfl
  | cons batch rest ih =>
      rw [List.flatten_cons] at nonempty silent ⊢
      have nonempty' : ∀ c ∈ rest.flatten, c.data ≠ [] :=
        fun c mem => nonempty c (List.mem_append_right _ mem)
      rw [batchPdus]
      rcases a.feedAll_cases framing probe batch with
        ⟨-, fed, pdus⟩ | ⟨front, c, back, rfl, failed, fed, pdus⟩
      · rw [fed, pdus, eachPdus_append]
        refine congrArg (_ ++ ·) (ih nonempty' ?_)
        intro front c back split failed
        refine silent (batch ++ front) c back (by rw [split, List.append_assoc]) ?_
        rw [feedEach_append]
        exact failed
      · -- neither the rest of the batch nor what comes after it gives anything
        have behind := silent front c (back ++ rest.flatten) (by simp) failed
        have fresh := isFresh_feed_of_error failed
        have desegment := (exists_drain_of_feed_error failed).1
        have later : ∀ chunks, chunks <:+ rest.flatten → eachPdus {} framing probe chunks = [] :=
          fun chunks suffix => behind chunks (suffix.trans (List.suffix_append _ _))
        have nothing := batchPdus_eq_nil (a := ((a.feedEach framing probe front).feed framing probe
          c).assembler) nonempty'
          ((fresh.eachPdus_eq desegment nonempty').trans (later _ (List.suffix_refl _))) later
        have rest' : ∀ d ∈ back ++ rest.flatten, d.data ≠ [] := by
          intro d mem
          rw [List.append_assoc] at nonempty
          exact nonempty d (List.mem_append_right front (List.mem_cons_of_mem c mem))
        rw [fed, pdus, nothing, List.append_nil, List.append_assoc, List.cons_append,
          eachPdus_append_cons a front c (back ++ rest.flatten),
          fresh.eachPdus_eq desegment rest', behind _ (List.suffix_refl _), List.append_nil]

/-! ### A batch of its own -/

/-- The assembler after some batches. -/
def feedBatches (a : Assembler) (framing : Framing) (probe : LengthProbe)
    (batches : List (List Chunk)) : Assembler :=
  batches.foldl (fun a batch => (a.feedAll framing probe batch).assembler) a

theorem batchPdus_append (a : Assembler) (batches more : List (List Chunk)) :
    a.batchPdus framing probe (batches ++ more) =
      a.batchPdus framing probe batches ++
        (a.feedBatches framing probe batches).batchPdus framing probe more := by
  induction batches generalizing a with
  | nil => rfl
  | cons batch rest ih =>
      rw [List.cons_append, batchPdus, ih, ← List.append_assoc]
      rfl

theorem feedAll_singleton (a : Assembler) (c : Chunk) :
    a.feedAll framing probe [c] = a.feed framing probe c := by
  rw [feedAll]
  dsimp only
  split
  · rfl
  · rename_i fine
    rw [Option.not_isSome_iff_eq_none] at fine
    rw [feedAll, List.append_nil, Nat.add_zero, ← fine]

/-- Batches of one chunk each are the chunks one by one. -/
theorem batchPdus_map_singleton (a : Assembler) (framing : Framing) (probe : LengthProbe)
    (chunks : List Chunk) :
    a.batchPdus framing probe (chunks.map ([·])) = a.eachPdus framing probe chunks ∧
      a.feedBatches framing probe (chunks.map ([·])) = a.feedEach framing probe chunks := by
  induction chunks generalizing a with
  | nil => exact ⟨rfl, rfl⟩
  | cons c rest ih =>
      obtain ⟨pdus, after⟩ := ih (a.feed framing probe c).assembler
      rw [List.map_cons, batchPdus, eachPdus_cons, feedAll_singleton, pdus]
      refine ⟨rfl, ?_⟩
      rw [feedBatches, List.foldl_cons, feedAll_singleton]
      exact after

/-- Empty batches give nothing. -/
theorem batchPdus_map_nil (a : Assembler) (chunks : List Chunk) (batches : List (List Chunk)) :
    a.batchPdus framing probe (chunks.map (fun _ => []) ++ batches) =
      a.batchPdus framing probe batches := by
  induction chunks with
  | nil => rfl
  | cons c rest ih => exact ih

/-- A chunk that fails takes the rest of its batch with it. -/
theorem batchPdus_of_late {front mid rest : List Chunk} {c : Chunk}
    (failed : ((a.feedEach framing probe front).feed framing probe c).error ≠ none)
    (nonempty : ∀ d ∈ rest, d.data ≠ []) :
    a.batchPdus framing probe
        (front.map ([·]) ++ (mid.map (fun _ => []) ++ (c :: mid) :: rest.map ([·]))) =
      a.eachPdus framing probe (front ++ [c]) ++ eachPdus {} framing probe rest := by
  obtain ⟨pdus, after⟩ := a.batchPdus_map_singleton framing probe front
  have alone : (a.feedEach framing probe front).feedAll framing probe (c :: mid) =
      (a.feedEach framing probe front).feed framing probe c := by
    rw [feedAll, if_pos (Option.isSome_iff_ne_none.2 failed)]
  have fresh := isFresh_feed_of_error failed
  rw [batchPdus_append, batchPdus_map_nil, pdus, after, batchPdus, alone,
    (batchPdus_map_singleton _ framing probe rest).1,
    fresh.eachPdus_eq (exists_drain_of_feed_error failed).1 nonempty, eachPdus_append,
    List.append_assoc, eachPdus_cons]
  exact congrArg (_ ++ ·) (congrArg (· ++ _) (List.append_nil _).symm)

/-- **Only then**: if no chunk that comes out late, together with some that follow it, changes what is
delivered, then there is nothing to frame behind a bad length. -/
theorem silentBehindErrors_of_late {α : Type} (view : Pdu → α) {chunks : List Chunk}
    (nonempty : ∀ c ∈ chunks, c.data ≠ [])
    (same : ∀ front c mid rest, chunks = front ++ c :: (mid ++ rest) →
      (a.batchPdus framing probe (front.map ([·]) ++
        (mid.map (fun _ => []) ++ (c :: mid) :: rest.map ([·])))).map view =
          (a.eachPdus framing probe chunks).map view) :
    a.SilentBehindErrors framing probe chunks := by
  intro front c back split failed
  have inside : ∀ d ∈ back, d.data ≠ [] := by
    intro d mem
    exact nonempty d (split ▸ List.mem_append_right front (List.mem_cons_of_mem c mem))
  have desegment := (exists_drain_of_feed_error failed).1
  -- whatever part of what follows is lost, what is left gives the same
  have resumed : ∀ mid rest, back = mid ++ rest →
      (eachPdus {} framing probe rest).map view = (eachPdus {} framing probe back).map view := by
    rintro mid rest rfl
    have late := same front c mid rest split
    rw [batchPdus_of_late failed fun d mem => inside d (List.mem_append_right mid mem), split,
      eachPdus_append_cons a front c (mid ++ rest),
      (isFresh_feed_of_error failed).eachPdus_eq desegment inside, List.map_append,
      List.map_append] at late
    exact List.append_cancel_left late
  have nothing : (eachPdus {} framing probe back).map view = [] :=
    (resumed back [] (List.append_nil back).symm).symm
  rintro rest ⟨mid, rfl⟩
  exact List.map_eq_nil_iff.1 ((resumed mid rest rfl).trans nothing)

end

end Assembler

end TcpCapture
