import Mathlib.Data.List.Infix
import TcpCapture.Flow.Reorder
import TcpCapture.Proofs.Sequence

/-!
# What a reorder buffer lets out

A reorder buffer that is given slices of one stream lets the stream out from its front, each byte
once, as far as the slices given so far reach without a hole.

## Main definitions

* `Chunk.offset`, `Chunk.Covers` — where in the stream a chunk lies
* `Chunk.IsSlice` — a chunk that holds the bytes of the stream at its place
* `Tiles` — chunks that lie end to end
* `ReorderBuffer.Holding` — the buffer has let out the first `k` bytes and holds slices further on

**What a step keeps.**  A position is dealt with once it was let out or lies in a held chunk.  Taking a
chunk deals with the positions the chunk covers, and with no others; trimming, dropping and replacing
held chunks changes nothing about that.
-/

namespace TcpCapture

/-! ### Slices of a stream -/

namespace Chunk

/-- How far after the origin a chunk starts. -/
def offset (origin : Seq) (c : Chunk) : Nat := (c.seq - origin).toNat

/-- The chunk holds the byte at this position. -/
def Covers (origin : Seq) (c : Chunk) (position : Nat) : Prop :=
  c.offset origin ≤ position ∧ position < c.offset origin + c.data.length

/-- The chunk is a piece of the stream that starts at `origin`, in its place. -/
structure IsSlice (stream : List UInt8) (origin : Seq) (c : Chunk) : Prop where
  nonempty : c.data ≠ []
  data : c.data <+: stream.drop (c.offset origin)

instance (origin : Seq) (c : Chunk) (position : Nat) : Decidable (c.Covers origin position) := by
  unfold Covers
  infer_instance

theorem seq_eq (origin : Seq) (c : Chunk) : c.seq = advance origin (c.offset origin) :=
  (advance_toNat_sub origin c.seq).symm

theorem offset_of_seq {origin : Seq} {c : Chunk} {i : Nat} (small : i < 0x100000000)
    (seq : c.seq = advance origin i) : c.offset origin = i := by
  rw [offset, seq]
  exact toNat_advance_sub_self origin small

theorem endSeq_eq (origin : Seq) (c : Chunk) :
    c.endSeq = advance origin (c.offset origin + c.data.length) := by
  rw [endSeq, c.seq_eq origin, advance_advance]

variable {stream : List UInt8} {origin : Seq} {c : Chunk}

theorem IsSlice.length_pos (slice : c.IsSlice stream origin) : 0 < c.data.length :=
  List.length_pos_iff.2 slice.nonempty

/-- A slice ends within the stream. -/
theorem IsSlice.end_le (slice : c.IsSlice stream origin) :
    c.offset origin + c.data.length ≤ stream.length := by
  have := slice.length_pos
  have := slice.data.length_le
  rw [List.length_drop] at this
  omega

/-- A slice trimmed to a position inside it is the rest of it, in its place. -/
theorem IsSlice.trimTo (slice : c.IsSlice stream origin) (small : stream.length < 0x80000000)
    {k : Nat} (start : c.offset origin ≤ k) (stop : k < c.offset origin + c.data.length) :
    (c.trimTo (advance origin k)).IsSlice stream origin ∧
      (c.trimTo (advance origin k)).offset origin = k ∧
      (c.trimTo (advance origin k)).data.length = c.offset origin + c.data.length - k := by
  have hend := slice.end_le
  have hoffset : (c.trimTo (advance origin k)).offset origin = k :=
    offset_of_seq (by omega) rfl
  have hdrop : (advance origin k - c.seq).toNat = k - c.offset origin := by
    rw [c.seq_eq origin]
    exact toNat_advance_sub origin start (by omega)
  have hdata : (c.trimTo (advance origin k)).data = c.data.drop (k - c.offset origin) :=
    congrArg c.data.drop hdrop
  refine ⟨⟨?_, ?_⟩, hoffset, ?_⟩
  · intro empty
    rw [hdata, List.drop_eq_nil_iff] at empty
    omega
  · have := List.IsPrefix.drop slice.data (k - c.offset origin)
    rw [List.drop_drop, Nat.add_sub_cancel' start] at this
    rw [hdata, hoffset]
    exact this
  · rw [hdata, List.length_drop]
    omega

end Chunk

/-- The chunks are slices that lie end to end, from position `start` up to position `stop`. -/
def Tiles (stream : List UInt8) (origin : Seq) (start : Nat) : List Chunk → Nat → Prop
  | [], stop => start = stop
  | c :: rest, stop =>
    c.IsSlice stream origin ∧ c.offset origin = start ∧
      Tiles stream origin (start + c.data.length) rest stop

/-- Some of the chunks holds the byte at this position. -/
def Covered (origin : Seq) (chunks : List Chunk) (position : Nat) : Prop :=
  ∃ c ∈ chunks, c.Covers origin position

instance (origin : Seq) (chunks : List Chunk) (position : Nat) :
    Decidable (Covered origin chunks position) := by
  unfold Covered
  infer_instance

theorem covered_cons {origin : Seq} {c : Chunk} {rest : List Chunk} {position : Nat} :
    Covered origin (c :: rest) position ↔
      c.Covers origin position ∨ Covered origin rest position := by
  simp [Covered]

theorem Covered.congr {origin : Seq} {l l' : List Chunk} (perm : l.Perm l') {position : Nat} :
    Covered origin l position ↔ Covered origin l' position := by
  simp only [Covered, perm.mem_iff]

theorem covered_concat {origin : Seq} {c : Chunk} {l : List Chunk} {position : Nat} :
    Covered origin (l ++ [c]) position ↔ c.Covers origin position ∨ Covered origin l position :=
  (Covered.congr List.perm_append_comm).trans covered_cons

/-! ### Taking held chunks out -/

theorem perm_of_swapRemove {α : Type} {p : α → Bool} {xs others : List α} {x : α}
    (h : swapRemove p xs = some (x, others)) : xs.Perm (x :: others) := by
  induction xs generalizing others with
  | nil => cases h
  | cons y rest ih =>
      rw [swapRemove] at h
      split at h
      · obtain ⟨rfl, rfl⟩ := Prod.mk.inj (Option.some.inj h)
        refine List.Perm.cons y ?_
        -- the last of the rest moves to the front, where the hole is
        cases hlast : rest.getLast? with
        | none => rw [List.getLast?_eq_none_iff.1 hlast]
        | some last =>
            obtain ⟨front, rfl⟩ := List.getLast?_eq_some_iff.1 hlast
            rw [List.dropLast_concat]
            exact List.perm_append_comm
      · obtain ⟨⟨found, others'⟩, h', he⟩ := Option.map_eq_some_iff.1 h
        obtain ⟨rfl, rfl⟩ := Prod.mk.inj he
        exact ((ih h').cons y).trans (List.Perm.swap _ _ _)

theorem swapRemove_eq_none {α : Type} {p : α → Bool} {xs : List α}
    (h : swapRemove p xs = none) : ∀ x ∈ xs, p x = false := by
  induction xs with
  | nil => simp
  | cons y rest ih =>
      rw [swapRemove] at h
      split at h
      · cases h
      · rename_i hy
        rw [Option.map_eq_none_iff] at h
        simpa using ⟨by simpa using hy, ih h⟩

theorem totalOf_perm {α : Type} {size : α → Nat} {l l' : List α} (perm : l.Perm l') :
    totalOf size l = totalOf size l' := by
  induction perm with
  | nil => rfl
  | cons a _ ih => rw [totalOf_cons, totalOf_cons, ih]
  | swap a b l =>
      simp only [totalOf_cons]
      omega
  | trans _ _ ih ih' => exact ih.trans ih'

namespace ReorderBuffer

/-- The first `k` bytes of the stream are let out; the held chunks are slices behind a hole there. -/
structure Holding (stream : List UInt8) (origin : Seq) (b : ReorderBuffer) (k : Nat) : Prop where
  next : b.nextSeq = some (advance origin k)
  le : k ≤ stream.length
  slices : ∀ c ∈ b.held, c.IsSlice stream origin
  behind : ∀ c ∈ b.held, k < c.offset origin

/-- What letting chunks out leads to: from position `start` on, with the `held` chunks at hand. -/
structure LetOut (stream : List UInt8) (origin : Seq) (start : Nat) (held chunks : List Chunk)
    (b : ReorderBuffer) (stop : Nat) : Prop where
  tiles : Tiles stream origin start chunks stop
  holding : b.Holding stream origin stop
  covered : ∀ position, position < start ∨ Covered origin held position ↔
    position < stop ∨ Covered origin b.held position
  bytes : b.heldBytes ≤ totalOf (·.data.length) held

namespace LetOut

variable {stream : List UInt8} {origin : Seq} {k stop : Nat} {held chunks : List Chunk}
  {b : ReorderBuffer} {c : Chunk}

/-- Nothing reaches the position: all chunks stay. -/
theorem of_holding (holding : b.Holding stream origin k) : LetOut stream origin k b.held [] b k :=
  ⟨rfl, holding, fun _ => Iff.rfl, Nat.le_refl _⟩

theorem perm {held' : List Chunk} (h : LetOut stream origin k held chunks b stop)
    (perm : held.Perm held') : LetOut stream origin k held' chunks b stop where
  tiles := h.tiles
  holding := h.holding
  covered position := by rw [← Covered.congr perm, h.covered]
  bytes := totalOf_perm perm ▸ h.bytes

/-- A chunk that came out before adds nothing. -/
theorem stale (h : LetOut stream origin k held chunks b stop)
    (stale : c.offset origin + c.data.length ≤ k) :
    LetOut stream origin k (c :: held) chunks b stop where
  tiles := h.tiles
  holding := h.holding
  covered position := by
    rw [← h.covered, covered_cons, Chunk.Covers]
    constructor
    · rintro (before | own | other)
      · exact Or.inl before
      · exact Or.inl (by omega)
      · exact Or.inr other
    · rintro (before | other)
      · exact Or.inl before
      · exact Or.inr (Or.inr other)
  bytes := Nat.le_trans h.bytes (Nat.le_add_left _ _)

/-- A chunk that reaches the position comes out first, from there on, and the others after it. -/
theorem cons (small : stream.length < 0x80000000) (slice : c.IsSlice stream origin)
    (start : c.offset origin ≤ k) (new : k < c.offset origin + c.data.length)
    (h : LetOut stream origin (c.offset origin + c.data.length) held chunks b stop) :
    LetOut stream origin k (c :: held) (c.trimTo (advance origin k) :: chunks) b stop where
  tiles := by
    obtain ⟨trimmed, hoffset, hlength⟩ := slice.trimTo small start new
    refine ⟨trimmed, hoffset, ?_⟩
    rw [hlength, Nat.add_sub_cancel' (Nat.le_of_lt new)]
    exact h.tiles
  holding := h.holding
  covered position := by
    rw [← h.covered, covered_cons, Chunk.Covers]
    constructor
    · rintro (before | own | other)
      · exact Or.inl (by omega)
      · exact Or.inl own.2
      · exact Or.inr other
    · rintro (before | other)
      · by_cases hk : position < k
        · exact Or.inl hk
        · exact Or.inr (Or.inl (by omega))
      · exact Or.inr (Or.inr other)
  bytes := Nat.le_trans h.bytes (Nat.le_add_left _ _)

/-- A chunk that is held already adds nothing. -/
theorem cons_held (h : LetOut stream origin k b.held chunks b stop) (holds : b.holds c = true) :
    LetOut stream origin k (c :: b.held) chunks b stop where
  tiles := h.tiles
  holding := h.holding
  covered position := by
    obtain ⟨d, hd, same⟩ := List.any_eq_true.1 holds
    simp only [Bool.and_eq_true, beq_iff_eq, decide_eq_true_iff] at same
    have covers : c.Covers origin position → d.Covers origin position := by
      unfold Chunk.Covers Chunk.offset
      rw [same.1]
      omega
    rw [← h.covered, covered_cons]
    constructor
    · rintro (before | own | other)
      · exact Or.inl before
      · exact Or.inr ⟨d, hd, covers own⟩
      · exact Or.inr other
    · rintro (before | other)
      · exact Or.inl before
      · exact Or.inr (Or.inr other)
  bytes := Nat.le_trans h.bytes (Nat.le_add_left _ _)

end LetOut

/-- Taking the held chunks out lets out all they reach, and keeps the others. -/
theorem letOut_collect {stream : List UInt8} {origin : Seq} (small : stream.length < 0x80000000)
    (k : Nat) (le : k ≤ stream.length) (held : List Chunk)
    (slices : ∀ c ∈ held, c.IsSlice stream origin) :
    ∃ stop, LetOut stream origin k held (collect (advance origin k) held).1
      (collect (advance origin k) held).2 stop := by
  -- each chunk taken out leaves fewer
  induction hlen : held.length using Nat.strongRecOn generalizing held k with
  | ind len ih =>
      rw [collect]
      split
      · rename_i none_left
        have behind : ∀ c ∈ held, k < c.offset origin := by
          intro c hc
          have hend := (slices c hc).end_le
          have hpos := (slices c hc).length_pos
          have not := swapRemove_eq_none none_left c hc
          rw [c.seq_eq origin, atOrBefore_advance origin (by omega) (by omega)] at not
          simpa using not
        have kept : Holding stream origin ⟨some (advance origin k), held⟩ k :=
          ⟨rfl, le, slices, behind⟩
        exact ⟨k, .of_holding kept⟩
      · rename_i c others taken
        obtain ⟨mem, reaches⟩ := mem_of_swapRemove taken
        have perm := perm_of_swapRemove taken
        have shorter : others.length < len := by
          have := length_of_swapRemove taken
          omega
        have slice := slices c mem
        have hend := slice.end_le
        have hpos := slice.length_pos
        have rest : ∀ d ∈ others, d.IsSlice stream origin := by
          intro d hd
          exact slices d (perm.mem_iff.2 (List.mem_cons_of_mem c hd))
        have start : c.offset origin ≤ k := by
          rw [c.seq_eq origin, atOrBefore_advance origin (by omega) (by omega)] at reaches
          simpa using reaches
        rw [c.endSeq_eq origin, atOrBefore_advance origin (by omega) (by omega)]
        split
        · rename_i stale
          obtain ⟨stop, others_out⟩ := ih _ shorter k le others rest rfl
          exact ⟨stop, (others_out.stale (by simpa using stale)).perm perm.symm⟩
        · rename_i new
          obtain ⟨stop, others_out⟩ :=
            ih _ shorter (c.offset origin + c.data.length) hend others rest rfl
          exact ⟨stop, (others_out.cons small slice start (by simpa using new)).perm perm.symm⟩

end ReorderBuffer

/-- The chunks an event let out. -/
def ReorderEvent.released : ReorderEvent → List Chunk
  | .inOrder chunks => chunks
  | .gap .. | .duplicate _ => []

namespace ReorderBuffer

/-- A slice behind the hole is held as well. -/
theorem Holding.append {stream : List UInt8} {origin : Seq} {b : ReorderBuffer} {k : Nat}
    (h : b.Holding stream origin k) {c : Chunk} (slice : c.IsSlice stream origin)
    (behind : k < c.offset origin) :
    Holding stream origin ⟨some (advance origin k), b.held ++ [c]⟩ k where
  next := rfl
  le := h.le
  slices d hd := by
    rcases List.mem_append.1 hd with hd | hd
    · exact h.slices d hd
    · exact List.mem_singleton.1 hd ▸ slice
  behind d hd := by
    rcases List.mem_append.1 hd with hd | hd
    · exact h.behind d hd
    · exact List.mem_singleton.1 hd ▸ behind

/-- **Taking a slice**: the buffer lets out what it reaches with the slice at hand. -/
theorem Holding.push {stream : List UInt8} {origin : Seq} {b : ReorderBuffer} {k : Nat}
    (h : b.Holding stream origin k) (small : stream.length < 0x80000000) {c : Chunk}
    (slice : c.IsSlice stream origin) :
    ∃ stop, LetOut stream origin k (c :: b.held) (b.push c).2.released (b.push c).1 stop := by
  have hend := slice.end_le
  have hpos := slice.length_pos
  have hle := h.le
  unfold ReorderBuffer.push
  rw [if_neg slice.nonempty, h.next]
  -- all of it came out before; it starts behind the hole; it reaches the position
  dsimp only
  rw [c.endSeq_eq origin, atOrBefore_advance origin (by omega) (by omega)]
  split
  · rename_i stale
    exact ⟨k, (LetOut.of_holding h).stale (by simpa using stale)⟩
  · rename_i new
    have new : k < c.offset origin + c.data.length := by simpa using new
    rw [c.seq_eq origin, after_advance origin (by omega) (by omega), ← c.seq_eq origin]
    split
    · rename_i behind
      have behind : k < c.offset origin := by simpa using behind
      split
      · rename_i holds
        exact ⟨k, (LetOut.of_holding h).cons_held holds⟩
      · exact ⟨k, (LetOut.of_holding (h.append slice behind)).perm List.perm_append_comm⟩
    · rename_i reaches
      have start : c.offset origin ≤ k := by simpa using reaches
      obtain ⟨-, hoffset, hlength⟩ := slice.trimTo small start new
      have hnext : (c.trimTo (advance origin k)).endSeq =
          advance origin (c.offset origin + c.data.length) := by
        rw [Chunk.endSeq_eq origin, hoffset, hlength, Nat.add_sub_cancel' (Nat.le_of_lt new)]
      obtain ⟨stop, others_out⟩ := letOut_collect small _ hend b.held h.slices
      refine ⟨stop, ?_⟩
      unfold release
      rw [hnext]
      exact others_out.cons small slice start new

end ReorderBuffer

end TcpCapture
