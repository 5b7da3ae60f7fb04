import TcpCapture.Proofs.Flow.Release
import TcpCapture.Proofs.Pdu.Segmentation

/-!
# Segments come out whole

A stream that is cut into segments without overlap comes out of a reorder buffer in the same segments,
in their order, whatever the order they arrive in.  The order of arrival decides which of them come out
together.

## Main definitions

* `ReorderBuffer.batches` — the chunks that each of some pushes lets out
* `ReorderBuffer.releasedBy_of_perm` — the segments that are out are the longest front that has arrived

**Why nothing is trimmed.**  A chunk is trimmed to the position to come out next.  Where segments do not
overlap that position starts a segment, and no other segment reaches it.
-/

namespace TcpCapture

/-! ### Chunks that lie end to end -/

namespace Tiles

variable {stream : List UInt8} {origin : Seq} {start stop : Nat} {l cut : List Chunk}

theorem isSlice (h : Tiles stream origin start l stop) : ∀ c ∈ l, c.IsSlice stream origin := by
  induction l generalizing start with
  | nil => exact nofun
  | cons d rest ih =>
      obtain ⟨slice, offset, tiles⟩ := h
      intro c mem
      rcases List.mem_cons.1 mem with rfl | mem
      · exact slice
      · exact ih tiles c mem

/-- They lie between the two ends. -/
theorem bounds (h : Tiles stream origin start l stop) :
    ∀ c ∈ l, start ≤ c.offset origin ∧ c.offset origin + c.data.length ≤ stop := by
  induction l generalizing start with
  | nil => exact nofun
  | cons d rest ih =>
      obtain ⟨slice, offset, tiles⟩ := h
      intro c mem
      rcases List.mem_cons.1 mem with rfl | mem
      · exact ⟨Nat.le_of_eq offset.symm, offset ▸ tiles.le⟩
      · have := ih tiles c mem
        omega

theorem split (h : Tiles stream origin start (l ++ cut) stop) :
    ∃ mid, Tiles stream origin start l mid ∧ Tiles stream origin mid cut stop := by
  induction l generalizing start with
  | nil => exact ⟨start, rfl, h⟩
  | cons d rest ih =>
      obtain ⟨slice, offset, tiles⟩ := h
      obtain ⟨mid, front, back⟩ := ih tiles
      exact ⟨mid, ⟨slice, offset, front⟩, back⟩

theorem covered (h : Tiles stream origin start l stop) {position : Nat} (from_start : start ≤ position)
    (inside : position < stop) : Covered origin l position := by
  induction l generalizing start with
  | nil =>
      obtain rfl : start = stop := h
      omega
  | cons d rest ih =>
      obtain ⟨slice, offset, tiles⟩ := h
      rw [covered_cons]
      by_cases here : position < start + d.data.length
      · exact Or.inl (by unfold Chunk.Covers; omega)
      · exact Or.inr (ih tiles (by omega))

/-- No two of them hold the same position. -/
theorem eq_of_covers (h : Tiles stream origin start l stop) {c d : Chunk} (hc : c ∈ l) (hd : d ∈ l)
    {position : Nat} (covers : c.Covers origin position) (covers' : d.Covers origin position) :
    c = d := by
  induction l generalizing start with
  | nil => exact absurd hc List.not_mem_nil
  | cons e rest ih =>
      obtain ⟨slice, offset, tiles⟩ := h
      have later := tiles.bounds
      unfold Chunk.Covers at covers covers'
      rcases List.mem_cons.1 hc with rfl | inside
      · rcases List.mem_cons.1 hd with rfl | inside'
        · rfl
        · have := later d inside'
          omega
      · rcases List.mem_cons.1 hd with rfl | inside'
        · have := later c inside
          omega
        · exact ih tiles inside inside'

end Tiles

/-- Chunks that follow one another are slices of what they hold together. -/
theorem Consecutive.tiles {stream : List UInt8} {origin : Seq} {k : Nat} {chunks : List Chunk}
    (small : stream.length < 0x80000000) (le : k ≤ stream.length)
    (consecutive : Consecutive (advance origin k) chunks)
    (data : chunks.flatMap (·.data) = stream.drop k) :
    Tiles stream origin k chunks stream.length := by
  induction chunks generalizing k with
  | nil =>
      have := congrArg List.length data
      rw [List.flatMap_nil, List.length_nil, List.length_drop] at this
      show k = stream.length
      omega
  | cons c rest ih =>
      obtain ⟨nonempty, seq, consecutive⟩ := consecutive
      rw [List.flatMap_cons] at data
      have offset : c.offset origin = k := Chunk.offset_of_seq (by omega) seq
      have slice : c.IsSlice stream origin := ⟨nonempty, offset ▸ ⟨_, data⟩⟩
      have inside := slice.end_le
      refine ⟨slice, offset, ih (by omega) ?_ ?_⟩
      · rw [← advance_advance, ← seq]
        exact consecutive
      · rw [← List.drop_drop, ← data, List.drop_left]

namespace Chunk

theorem trimTo_seq (c : Chunk) : c.trimTo c.seq = c := by
  rw [trimTo, BitVec.sub_self]
  rfl

/-- A chunk trimmed to some bytes starts at a position it held. -/
theorem covers_of_trimTo {stream : List UInt8} {origin seq : Seq} {c : Chunk}
    (slice : c.IsSlice stream origin) (small : stream.length < 0x80000000)
    (some : (c.trimTo seq).data ≠ []) : c.Covers origin ((c.trimTo seq).offset origin) := by
  have inside := slice.end_le
  have left : (seq - c.seq).toNat < c.data.length := by
    refine Nat.not_le.1 fun through => some ?_
    exact List.drop_eq_nil_iff.2 through
  have offset : (c.trimTo seq).offset origin = c.offset origin + (seq - c.seq).toNat := by
    refine offset_of_seq (by omega) ?_
    rw [← advance_advance, ← c.seq_eq origin, advance_toNat_sub]
    rfl
  unfold Covers
  omega

end Chunk

/-- Slices trimmed from segments, laid out along the same stretch as some of these, are these. -/
theorem Tiles.eq_of_trimmed {stream : List UInt8} {origin : Seq} {start stop first last : Nat}
    {l cut all : List Chunk} (whole : Tiles stream origin first all last)
    (small : stream.length < 0x80000000) (sub : cut ⊆ all)
    (h : Tiles stream origin start l stop) (h' : Tiles stream origin start cut stop)
    (trimmed : ∀ x ∈ l, ∃ c ∈ all, ∃ seq, x = c.trimTo seq) : l = cut := by
  induction l generalizing start cut with
  | nil =>
      cases cut with
      | nil => rfl
      | cons d rest =>
          obtain rfl : start = stop := h
          obtain ⟨slice, offset, tiles⟩ := h'
          have := slice.length_pos
          have := tiles.le
          omega
  | cons x l ih =>
      obtain ⟨slice, offset, tiles⟩ := h
      have pos := slice.length_pos
      cases cut with
      | nil =>
          obtain rfl : start = stop := h'
          have := tiles.le
          omega
      | cons d rest =>
          obtain ⟨slice', offset', tiles'⟩ := h'
          -- the segment it was trimmed from and the one that starts here hold the same position
          have same : x = d := by
            obtain ⟨c, mem, seq, rfl⟩ := trimmed x List.mem_cons_self
            have covers := Chunk.covers_of_trimTo (whole.isSlice c mem) small slice.nonempty
            obtain rfl : c = d := by
              refine whole.eq_of_covers mem (sub List.mem_cons_self) covers ?_
              have := slice'.length_pos
              unfold Chunk.Covers
              omega
            have here : seq = c.seq := by
              rw [show seq = (c.trimTo seq).seq from rfl, Chunk.seq_eq origin, offset, ← offset',
                ← c.seq_eq origin]
            rw [here, Chunk.trimTo_seq]
          subst same
          exact congrArg (x :: ·) (ih (fun c mem => sub (List.mem_cons_of_mem x mem)) tiles tiles'
            fun y mem => trimmed y (List.mem_cons_of_mem x mem))

/-! ### What pushes let out -/

namespace ReorderBuffer

/-- What is let out of held chunks are these chunks, trimmed, and what stays is among them. -/
theorem trimmed_collect (next : Seq) (held : List Chunk) :
    (∀ x ∈ (collect next held).1, ∃ c ∈ held, ∃ seq, x = c.trimTo seq) ∧
      (collect next held).2.held ⊆ held := by
  fun_induction collect next held with
  | case1 next held none => exact ⟨nofun, List.Subset.refl _⟩
  | case2 next held c others taken shorter stale ih =>
      have sub : others ⊆ held := fun d mem =>
        (perm_of_swapRemove taken).symm.subset (List.mem_cons_of_mem c mem)
      refine ⟨fun x mem => ?_, List.Subset.trans ih.2 sub⟩
      obtain ⟨d, inside, seq, eq⟩ := ih.1 x mem
      exact ⟨d, sub inside, seq, eq⟩
  | case3 next held c others taken shorter new chunks b eq ih =>
      have sub : others ⊆ held := fun d mem =>
        (perm_of_swapRemove taken).symm.subset (List.mem_cons_of_mem c mem)
      rw [eq] at ih
      refine ⟨fun x mem => ?_, List.Subset.trans ih.2 sub⟩
      rcases List.mem_cons.1 mem with rfl | mem
      · exact ⟨c, (mem_of_swapRemove taken).1, next, rfl⟩
      · obtain ⟨d, inside, seq, eq⟩ := ih.1 x mem
        exact ⟨d, sub inside, seq, eq⟩

theorem trimmed_push (b : ReorderBuffer) (c : Chunk) :
    (∀ x ∈ (b.push c).2.released, ∃ d ∈ c :: b.held, ∃ seq, x = d.trimTo seq) ∧
      (b.push c).1.held ⊆ c :: b.held := by
  have kept : b.held ⊆ c :: b.held := fun d mem => List.mem_cons_of_mem c mem
  unfold push
  split
  · exact ⟨nofun, kept⟩
  · split
    · refine ⟨fun x mem => ?_, kept⟩
      obtain rfl := List.mem_singleton.1 mem
      exact ⟨x, List.mem_cons_self, x.seq, x.trimTo_seq.symm⟩
    · split
      · exact ⟨nofun, kept⟩
      · split
        · refine ⟨nofun, ?_⟩
          dsimp only
          split
          · exact kept
          · intro d mem
            have back : (b.held ++ [c]).Perm (c :: b.held) := List.perm_append_comm
            exact back.subset mem
        · rename_i expected _ _ _
          obtain ⟨out, stay⟩ := trimmed_collect (c.trimTo expected).endSeq b.held
          refine ⟨fun x mem => ?_, List.Subset.trans stay kept⟩
          rcases List.mem_cons.1 mem with rfl | mem
          · exact ⟨c, List.mem_cons_self, expected, rfl⟩
          · obtain ⟨d, inside, seq, eq⟩ := out x mem
            exact ⟨d, kept inside, seq, eq⟩

/-- Chunks that come out are pushed chunks, or chunks held before, trimmed. -/
theorem trimmed_releasedBy (b : ReorderBuffer) (chunks : List Chunk) :
    ∀ x ∈ b.releasedBy chunks, ∃ c ∈ chunks ++ b.held, ∃ seq, x = c.trimTo seq := by
  induction chunks generalizing b with
  | nil => exact nofun
  | cons c rest ih =>
      obtain ⟨out, stay⟩ := b.trimmed_push c
      intro x mem
      rcases List.mem_append.1 mem with mem | mem
      · obtain ⟨d, inside, seq, eq⟩ := out x mem
        refine ⟨d, ?_, seq, eq⟩
        rcases List.mem_cons.1 inside with rfl | inside
        · exact List.mem_append_left _ List.mem_cons_self
        · exact List.mem_append_right _ inside
      · obtain ⟨d, inside, seq, eq⟩ := ih _ x mem
        refine ⟨d, ?_, seq, eq⟩
        rcases List.mem_append.1 inside with inside | inside
        · exact List.mem_append_left _ (List.mem_cons_of_mem c inside)
        · rcases List.mem_cons.1 (stay inside) with rfl | inside
          · exact List.mem_append_left _ List.mem_cons_self
          · exact List.mem_append_right _ inside

/-- **Segments come out whole and in order**: those that are out are the longest front of the stream
that has arrived. -/
theorem releasedBy_of_perm {origin : Seq} {cut arrived : List Chunk} (front back later : List Chunk)
    (consecutive : Consecutive origin cut)
    (small : (cut.flatMap (·.data)).length < 0x80000000) (split : cut = front ++ back)
    (perm : arrived.Perm (front ++ later)) (behind : later ⊆ back.tail) :
    (sync {} origin).releasedBy arrived = front := by
  subst split
  have whole := Consecutive.tiles small (Nat.zero_le _) ((advance_zero origin).symm ▸ consecutive) rfl
  generalize (front ++ back).flatMap (·.data) = stream at small whole
  obtain ⟨k, upTo, from_k⟩ := whole.split
  have sub : arrived ⊆ front ++ back := by
    intro c mem
    rcases List.mem_append.1 (perm.subset mem) with mem | mem
    · exact List.mem_append_left _ mem
    · exact List.mem_append_right _ (List.tail_subset _ (behind mem))
  have longest : coveredPrefix stream origin arrived = k := by
    refine coveredPrefix_eq from_k.le (fun position inside => ?_) fun _ => ?_
    · rw [Covered.congr perm, covered_append]
      exact Or.inl (upTo.covered (Nat.zero_le _) inside)
    · rintro ⟨c, mem, covers⟩
      unfold Chunk.Covers at covers
      rcases List.mem_append.1 (perm.subset mem) with mem | mem
      · have := (upTo.bounds c mem).2
        omega
      · cases back with
        | nil => exact List.not_mem_nil (behind mem)
        | cons d rest =>
            obtain ⟨slice, offset, tiles⟩ := from_k
            have := (tiles.bounds c (behind mem)).1
            have := slice.length_pos
            omega
  have slices : ∀ c ∈ arrived, c.data = [] ∨ c.IsSlice stream origin :=
    fun c mem => Or.inr (whole.isSlice c (sub mem))
  have out := letOut_pushAll_sync small slices
  rw [longest] at out
  refine whole.eq_of_trimmed small (List.subset_append_left front back) out.tiles upTo ?_
  intro x mem
  obtain ⟨c, inside, seq, eq⟩ := trimmed_releasedBy _ _ x mem
  rw [show (sync {} origin).held = [] from rfl, List.append_nil] at inside
  exact ⟨c, sub inside, seq, eq⟩

/-! ### What comes out together -/

/-- The chunks that each of some pushes lets out. -/
def batches (b : ReorderBuffer) : List Chunk → List (List Chunk)
  | [] => []
  | c :: rest => (b.push c).2.released :: (b.push c).1.batches rest

theorem flatten_batches (b : ReorderBuffer) (chunks : List Chunk) :
    (b.batches chunks).flatten = b.releasedBy chunks := by
  induction chunks generalizing b with
  | nil => rfl
  | cons c rest ih => exact congrArg (_ ++ ·) (ih _)

theorem batches_append (b : ReorderBuffer) (chunks more : List Chunk) :
    b.batches (chunks ++ more) = b.batches chunks ++ (b.pushAll chunks).batches more := by
  induction chunks generalizing b with
  | nil => rfl
  | cons c rest ih => exact congrArg (_ :: ·) (ih _)

theorem batches_eq_map {b : ReorderBuffer} {chunks : List Chunk} {out : Chunk → List Chunk}
    (each : ∀ pre c, pre ++ [c] <+: chunks → ((b.pushAll pre).push c).2.released = out c) :
    b.batches chunks = chunks.map out := by
  induction chunks generalizing b with
  | nil => rfl
  | cons c rest ih =>
      refine congrArg₂ (· :: ·) (each [] c (List.prefix_append [c] rest)) (ih ?_)
      intro pre d reached
      exact each (c :: pre) d ((List.prefix_cons_inj c).2 reached)

/-- What a push lets out is what is out after it and was not before. -/
theorem released_push {b : ReorderBuffer} {pre new : List Chunk} (out : List Chunk) {c : Chunk}
    (before : b.releasedBy pre = out) (after : b.releasedBy (pre ++ [c]) = out ++ new) :
    ((b.pushAll pre).push c).2.released = new := by
  rw [releasedBy_append, before] at after
  exact (List.append_nil _).symm.trans (List.append_cancel_left after)

section

variable {origin : Seq} {cut : List Chunk} (consecutive : Consecutive origin cut)
  (small : (cut.flatMap (·.data)).length < 0x80000000)

include consecutive small

/-- In order, segments come out one by one. -/
theorem batches_in_order : (sync {} origin).batches cut = cut.map ([·]) := by
  refine batches_eq_map fun pre c ⟨back, split⟩ => released_push pre ?_ ?_
  · exact releasedBy_of_perm pre (c :: back) [] consecutive small
      (by rw [← split, List.append_assoc]; rfl) (by rw [List.append_nil]) nofun
  · exact releasedBy_of_perm (pre ++ [c]) back [] consecutive small split.symm
      (by rw [List.append_nil]) nofun

/-- A segment that arrives behind some that follow it comes out together with them. -/
theorem batches_of_late {front mid rest : List Chunk} {c : Chunk}
    (split : cut = front ++ c :: (mid ++ rest)) :
    (sync {} origin).batches (front ++ (mid ++ c :: rest)) =
      front.map ([·]) ++ (mid.map (fun _ => []) ++ (c :: mid) :: rest.map ([·])) := by
  have held (pre : List Chunk) (h : pre <+: mid) :
      (sync {} origin).releasedBy (front ++ pre) = front :=
    releasedBy_of_perm front (c :: (mid ++ rest)) pre consecutive small split (List.Perm.refl _)
      (List.Subset.trans h.subset (List.subset_append_left mid rest))
  have released (pre : List Chunk) (h : pre <+: rest) :
      (sync {} origin).releasedBy (front ++ mid ++ [c] ++ pre) = front ++ c :: mid ++ pre := by
    obtain ⟨back, rfl⟩ := h
    refine releasedBy_of_perm _ back [] consecutive small (by simp [split]) ?_ nofun
    rw [List.append_nil, List.append_assoc front mid [c]]
    refine List.Perm.append_right pre (List.Perm.append_left front ?_)
    exact List.perm_append_comm
  rw [batches_append, batches_append]
  refine congrArg₂ (· ++ ·) ?_ (congrArg₂ (· ++ ·) ?_ (congrArg₂ (· :: ·) ?_ ?_))
  · refine batches_eq_map fun pre d ⟨back, inside⟩ => released_push pre ?_ ?_
    · exact releasedBy_of_perm pre (d :: (back ++ c :: (mid ++ rest))) [] consecutive small
        (by rw [split, ← inside]; simp) (by rw [List.append_nil]) nofun
    · exact releasedBy_of_perm (pre ++ [d]) (back ++ c :: (mid ++ rest)) [] consecutive small
        (by rw [split, ← inside]; simp) (by rw [List.append_nil]) nofun
  · refine batches_eq_map fun pre d reached => ?_
    rw [← pushAll_append]
    refine released_push front (held pre ((List.prefix_append pre [d]).trans reached)) ?_
    rw [List.append_assoc, held _ reached, List.append_nil]
  · rw [← pushAll_append]
    refine released_push front (held mid (List.prefix_refl mid)) ?_
    have := released [] List.nil_prefix
    rwa [List.append_nil, List.append_nil] at this
  · rw [← pushAll_append, show (((sync {} origin).pushAll (front ++ mid)).push c).1 =
      (sync {} origin).pushAll (front ++ mid ++ [c]) from (pushAll_append _ _ [c]).symm]
    refine batches_eq_map fun pre d reached => ?_
    rw [← pushAll_append]
    refine released_push (front ++ c :: mid ++ pre)
      (released pre ((List.prefix_append pre [d]).trans reached)) ?_
    rw [List.append_assoc, released _ reached, List.append_assoc (front ++ c :: mid)]

end

end ReorderBuffer

end TcpCapture
