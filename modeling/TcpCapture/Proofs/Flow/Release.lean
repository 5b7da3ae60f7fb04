import Mathlib.Data.Nat.Find
import TcpCapture.Proofs.Flow.Reordering

/-!
# What a run of pushes lets out

A reorder buffer is anchored once and then takes one slice of a stream after another.  How far the
stream has come out depends on which of its positions the slices cover, and on nothing else.

## Main definitions

* `ReorderBuffer.pushAll`, `ReorderBuffer.releasedBy` — the buffer after some pushes, and the chunks
  they let out
* `coveredPrefix` — how far a stream is covered without a hole

**A run is one large step.**  What single pushes lead to composes: the chunks let out lie end to end
across the pushes, and the positions dealt with are those of all the slices together.
-/

namespace TcpCapture

/-- Length of the longest prefix of the stream that the chunks cover. -/
def coveredPrefix (stream : List UInt8) (origin : Seq) (chunks : List Chunk) : Nat :=
  Nat.findGreatest (fun k => ∀ position < k, Covered origin chunks position) stream.length

/-- A prefix that is covered, with a hole behind it unless the stream ends there, is the longest. -/
theorem coveredPrefix_eq {stream : List UInt8} {origin : Seq} {chunks : List Chunk} {k : Nat}
    (le : k ≤ stream.length) (covered : ∀ position < k, Covered origin chunks position)
    (hole : k < stream.length → ¬ Covered origin chunks k) :
    coveredPrefix stream origin chunks = k := by
  refine Nat.findGreatest_eq_iff.2 ⟨le, fun _ => covered, ?_⟩
  intro longer more inside all
  exact hole (Nat.lt_of_lt_of_le more inside) (all k more)

theorem covered_append {origin : Seq} {l l' : List Chunk} {position : Nat} :
    Covered origin (l ++ l') position ↔ Covered origin l position ∨ Covered origin l' position := by
  simp only [Covered, List.mem_append, or_and_right, exists_or]

/-! ### Chunks that lie end to end -/

namespace Tiles

variable {stream : List UInt8} {origin : Seq} {start mid stop : Nat} {l l' : List Chunk}

theorem append (h : Tiles stream origin start l mid) (h' : Tiles stream origin mid l' stop) :
    Tiles stream origin start (l ++ l') stop := by
  induction l generalizing start with
  | nil =>
      obtain rfl : start = mid := h
      exact h'
  | cons c rest ih =>
      obtain ⟨slice, offset, tiles⟩ := h
      exact ⟨slice, offset, ih tiles⟩

theorem le (h : Tiles stream origin start l stop) : start ≤ stop := by
  induction l generalizing start with
  | nil => exact Nat.le_of_eq h
  | cons c rest ih => exact Nat.le_trans (Nat.le_add_right _ _) (ih h.2.2)

/-- Together they hold the stretch of the stream they span. -/
theorem flatMap_data (h : Tiles stream origin start l stop) :
    l.flatMap (·.data) = (stream.drop start).take (stop - start) := by
  induction l generalizing start with
  | nil =>
      obtain rfl : start = stop := h
      rw [Nat.sub_self, List.take_zero, List.flatMap_nil]
  | cons c rest ih =>
      obtain ⟨slice, offset, tiles⟩ := h
      have first : c.data = (stream.drop start).take c.data.length :=
        List.prefix_iff_eq_take.1 (offset ▸ slice.data)
      have span : stop - start = c.data.length + (stop - (start + c.data.length)) := by
        have := tiles.le
        omega
      rw [List.flatMap_cons, ih tiles, span, List.take_add, ← first, List.drop_drop]

/-- They are slices of any front of the stream that reaches as far. -/
theorem take (h : Tiles stream origin start l stop) {n : Nat} (reaches : stop ≤ n) :
    Tiles (stream.take n) origin start l stop := by
  induction l generalizing start with
  | nil => exact h
  | cons c rest ih =>
      obtain ⟨slice, offset, tiles⟩ := h
      have inside := tiles.le
      refine ⟨⟨slice.nonempty, ?_⟩, offset, ih tiles⟩
      rw [List.drop_take]
      exact List.prefix_take_iff.2 ⟨slice.data, by omega⟩

/-- They are slices of the rest of the stream, from a position before them on. -/
theorem drop (h : Tiles stream origin start l stop) (small : stream.length < 0x80000000) {k : Nat}
    (before : k ≤ start) :
    Tiles (stream.drop k) (advance origin k) (start - k) l (stop - k) := by
  induction l generalizing start with
  | nil => exact congrArg (· - k) h
  | cons c rest ih =>
      obtain ⟨slice, offset, tiles⟩ := h
      have inside := slice.end_le
      have moved : c.offset (advance origin k) = start - k := by
        refine Chunk.offset_of_seq (by omega) ?_
        rw [advance_advance, Nat.add_sub_cancel' before, ← offset]
        exact c.seq_eq origin
      refine ⟨⟨slice.nonempty, ?_⟩, moved, ?_⟩
      · rw [moved, List.drop_drop, Nat.add_sub_cancel' before, ← offset]
        exact slice.data
      · rw [show start - k + c.data.length = start + c.data.length - k by omega]
        exact ih tiles (by omega)

end Tiles

/-! ### One push after another -/

namespace ReorderBuffer

/-- The buffer after some chunks were pushed. -/
def pushAll (b : ReorderBuffer) (chunks : List Chunk) : ReorderBuffer :=
  chunks.foldl (fun b c => (b.push c).1) b

/-- The chunks that some pushes let out, in order. -/
def releasedBy (b : ReorderBuffer) : List Chunk → List Chunk
  | [] => []
  | c :: rest => (b.push c).2.released ++ (b.push c).1.releasedBy rest

theorem pushAll_append (b : ReorderBuffer) (chunks more : List Chunk) :
    b.pushAll (chunks ++ more) = (b.pushAll chunks).pushAll more := List.foldl_append

theorem releasedBy_append (b : ReorderBuffer) (chunks more : List Chunk) :
    b.releasedBy (chunks ++ more) = b.releasedBy chunks ++ (b.pushAll chunks).releasedBy more := by
  induction chunks generalizing b with
  | nil => rfl
  | cons c rest ih =>
      show (b.push c).2.released ++ (b.push c).1.releasedBy (rest ++ more) = _
      rw [ih, ← List.append_assoc]
      rfl

variable {stream : List UInt8} {origin : Seq} {b : ReorderBuffer} {k : Nat} {chunks : List Chunk}

/-- What a first push and the later ones let out, taken together. -/
theorem LetOut.trans {c : Chunk} {first later : List Chunk} {b' : ReorderBuffer} {mid stop : Nat}
    (h : LetOut stream origin k (c :: b.held) first b' mid)
    (h' : LetOut stream origin mid (chunks ++ b'.held) later (b'.pushAll chunks) stop) :
    LetOut stream origin k (c :: chunks ++ b.held) (first ++ later) (b'.pushAll chunks) stop where
  tiles := h.tiles.append h'.tiles
  holding := h'.holding
  covered position := by
    have before := h.covered position
    have after := h'.covered position
    rw [covered_append] at after ⊢
    rw [covered_cons] at before ⊢
    grind
  bytes := by
    have before := h.bytes
    have after := h'.bytes
    rw [totalOf_append] at after ⊢
    rw [totalOf_cons] at before ⊢
    unfold heldBytes at before
    omega

/-- A chunk without data lets nothing out. -/
theorem LetOut.cons_empty {c : Chunk} {held later : List Chunk} {b' : ReorderBuffer} {stop : Nat}
    (h : LetOut stream origin k held later b' stop) (empty : c.data = []) :
    LetOut stream origin k (c :: held) later b' stop where
  tiles := h.tiles
  holding := h.holding
  covered position := by
    have none : ¬ c.Covers origin position := by
      rintro ⟨start, stop⟩
      rw [empty, List.length_nil] at stop
      omega
    rw [covered_cons, or_iff_right none]
    exact h.covered position
  bytes := by
    rw [totalOf_cons, empty, List.length_nil, Nat.zero_add]
    exact h.bytes

/-- **Taking slices**: the pushes let out what they reach together with the chunks at hand. -/
theorem Holding.pushAll (h : b.Holding stream origin k) (small : stream.length < 0x80000000)
    (slices : ∀ c ∈ chunks, c.data = [] ∨ c.IsSlice stream origin) :
    ∃ stop, LetOut stream origin k (chunks ++ b.held) (b.releasedBy chunks) (b.pushAll chunks)
      stop := by
  induction chunks generalizing b k with
  | nil => exact ⟨k, .of_holding h⟩
  | cons c rest ih =>
      have others : ∀ d ∈ rest, d.data = [] ∨ d.IsSlice stream origin :=
        fun d mem => slices d (List.mem_cons_of_mem c mem)
      rcases slices c List.mem_cons_self with empty | slice
      · obtain ⟨stop, later⟩ := ih h others
        have none : b.push c = (b, .inOrder []) := by rw [ReorderBuffer.push, if_pos empty]
        rw [releasedBy, show b.pushAll (c :: rest) = (b.push c).1.pushAll rest from rfl, none]
        exact ⟨stop, later.cons_empty empty⟩
      · obtain ⟨mid, first⟩ := h.push small slice
        obtain ⟨stop, later⟩ := ih first.holding others
        exact ⟨stop, first.trans later⟩

/-- Chunks come out as far as those dealt with cover the stream. -/
theorem LetOut.coveredPrefix_eq {l held later : List Chunk} {stop : Nat}
    (h : LetOut stream origin k held later b stop)
    (dealt : ∀ position, Covered origin l position ↔ position < k ∨ Covered origin held position) :
    coveredPrefix stream origin l = stop := by
  refine TcpCapture.coveredPrefix_eq h.holding.le (fun position before => ?_) (fun _ covered => ?_)
  · exact (dealt position).2 ((h.covered position).2 (Or.inl before))
  · -- what is held back lies behind the hole
    rcases (h.covered stop).1 ((dealt stop).1 covered) with before | ⟨c, mem, start, -⟩
    · exact Nat.lt_irrefl stop before
    · exact Nat.not_lt.2 start (h.holding.behind c mem)

/-- An anchored buffer that took nothing holds nothing back. -/
theorem holding_sync (stream : List UInt8) (origin : Seq) :
    Holding stream origin (sync {} origin) 0 where
  next := by
    rw [advance_zero]
    rfl
  le := Nat.zero_le _
  slices := nofun
  behind := nofun

/-- Slices pushed into an anchored buffer come out as far as they cover the stream. -/
theorem letOut_pushAll_sync (small : stream.length < 0x80000000)
    (slices : ∀ c ∈ chunks, c.data = [] ∨ c.IsSlice stream origin) :
    LetOut stream origin 0 chunks ((sync {} origin).releasedBy chunks)
      ((sync {} origin).pushAll chunks) (coveredPrefix stream origin chunks) := by
  obtain ⟨stop, out⟩ := (holding_sync stream origin).pushAll small slices
  rw [show (sync {} origin).held = [] from rfl, List.append_nil] at out
  have longest := out.coveredPrefix_eq (l := chunks)
    fun position => (or_iff_right (Nat.not_lt_zero position)).symm
  exact longest ▸ out

/-- And so do slices pushed later. -/
theorem letOut_pushAll_later {more : List Chunk} (small : stream.length < 0x80000000)
    (slices : ∀ c ∈ chunks, c.data = [] ∨ c.IsSlice stream origin)
    (others : ∀ c ∈ more, c.data = [] ∨ c.IsSlice stream origin) :
    LetOut stream origin (coveredPrefix stream origin chunks)
      (more ++ ((sync {} origin).pushAll chunks).held)
      (((sync {} origin).pushAll chunks).releasedBy more)
      (((sync {} origin).pushAll chunks).pushAll more)
      (coveredPrefix stream origin (chunks ++ more)) := by
  have first := letOut_pushAll_sync small slices
  obtain ⟨stop, out⟩ := first.holding.pushAll small others
  have longest := out.coveredPrefix_eq (l := chunks ++ more) fun position => by
    have dealt := first.covered position
    rw [or_iff_right (Nat.not_lt_zero position)] at dealt
    rw [covered_append, covered_append, dealt, or_assoc,
      or_comm (a := Covered origin more position)]
  exact longest ▸ out

/-- **A reorder buffer lets out exactly the covered prefix.**  After pushes of slices of a stream, in
any order, repeated and overlapping as they may, the data let out so far is the longest prefix of the
stream that the slices cover, and the position to come out next is the one behind it. -/
theorem releasedBy_eq_coveredPrefix (small : stream.length < 0x80000000)
    (slices : ∀ c ∈ chunks, c.IsSlice stream origin) :
    ((sync {} origin).releasedBy chunks).flatMap (·.data) =
        stream.take (coveredPrefix stream origin chunks) ∧
      ((sync {} origin).pushAll chunks).nextSeq =
        some (advance origin (coveredPrefix stream origin chunks)) := by
  have out := letOut_pushAll_sync small fun c mem => Or.inr (slices c mem)
  refine ⟨?_, out.holding.next⟩
  rw [out.tiles.flatMap_data, List.drop_zero, Nat.sub_zero]

/-- Four slices across the wrap: the second repeats part of the first, and the last fills the hole. -/
theorem releasedBy_wrapping :
    let stream : List UInt8 := [1, 2, 3, 4, 5, 6]
    let chunks : List Chunk :=
      [⟨0, 1, 0, [3, 4]⟩, ⟨1, 2, 0, [4, 5]⟩, ⟨0, 3, 0, [3]⟩, ⟨0xfffffffe, 4, 0, [1, 2, 3]⟩]
    (∀ c ∈ chunks, c.IsSlice stream 0xfffffffe) ∧
      ((sync {} 0xfffffffe).releasedBy chunks).flatMap (·.data) = [1, 2, 3, 4, 5] ∧
      ((sync {} 0xfffffffe).pushAll chunks).nextSeq = some 3 := by
  intro stream chunks
  have slices : ∀ c ∈ chunks, c.IsSlice stream 0xfffffffe := by
    intro c mem
    simp only [chunks, List.mem_cons, List.not_mem_nil, or_false] at mem
    rcases mem with rfl | rfl | rfl | rfl
    all_goals exact ⟨by decide, by decide⟩
  obtain ⟨data, next⟩ := releasedBy_eq_coveredPrefix (by decide) slices
  rw [show coveredPrefix stream 0xfffffffe chunks = 5 by decide +kernel] at data next
  exact ⟨slices, data, next⟩

end ReorderBuffer

end TcpCapture
