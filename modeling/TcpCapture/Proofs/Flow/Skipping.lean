import TcpCapture.Proofs.Flow.Batches

/-!
# Runs with holes given up

A reorder buffer is anchored, takes chunks, gives holes up and drops what it holds, in any order and any
number of times.  Whatever the chunks are, what it lets out is in sequence: each chunk starts where the
one before it ended, but for the positions a hole was given up for.

## Main definitions

* `BufferCall`, `ReorderBuffer.callAll` — what a reorder buffer is asked to do, and the buffer after it
* `Release`, `ReorderBuffer.releases` — a chunk let out with the positions given up in front of it, and
  all those of a run
* `Follows` — releases that lie behind one another
* `positions` — where the bytes of releases lie, counted from the anchor without wrapping
* `ReorderBuffer.InSequence` — all that holds of a run
* `ReorderBuffer.inSequence_of_short` — it holds of every run of chunks shorter than half a turn

**Half a turn.**  No stream is laid out beforehand, and the numbers may wrap any number of times.  The
comparisons are told apart by single distances: a chunk that reaches the next position without being all
old starts less than its own length in front of it, so what is trimmed off never uses it up.
-/

namespace TcpCapture

namespace Chunk

/-- The chunk holds the last bytes of another one, in their place. -/
structure IsTailOf (x c : Chunk) : Prop where
  suffix : x.data <:+ c.data
  endSeq : x.endSeq = c.endSeq

theorem IsTailOf.refl (c : Chunk) : c.IsTailOf c := ⟨List.suffix_refl _, rfl⟩

variable {c : Chunk} {next : Seq}

/-- A chunk that reaches a position and is not all in front of it starts less than its length in front
of it. -/
theorem lt_length_of_reaches (short : c.data.length < 0x80000000)
    (reaches : after c.seq next = false) (new : after c.endSeq next = true) :
    (next - c.seq).toNat < c.data.length := by
  rw [Bool.eq_false_iff, ne_eq, after_iff] at reaches
  rw [after_iff, endSeq, advance] at new
  bv_omega

/-- Trimmed to that position it is a tail of what it was. -/
theorem trimTo_of_reaches (short : c.data.length < 0x80000000)
    (reaches : after c.seq next = false) (new : after c.endSeq next = true) :
    (c.trimTo next).data ≠ [] ∧ (c.trimTo next).IsTailOf c := by
  have inside := lt_length_of_reaches short reaches new
  refine ⟨fun none => ?_, List.drop_suffix _ _, ?_⟩
  · exact absurd (List.drop_eq_nil_iff.1 none) (Nat.not_le.2 inside)
  · rw [endSeq, endSeq, trimTo, List.length_drop, advance, advance]
    bv_omega

end Chunk

/-! ### Releases -/

/-- A chunk let out. -/
structure Release where
  /-- Positions given up in front of it. -/
  skipped : Nat := 0
  chunk : Chunk
deriving DecidableEq

/-- The releases lie behind one another from a number on, up to `stop`: each starts where the one before
it ended, but for the positions given up in front of it. -/
def Follows (next : Seq) : List Release → Seq → Prop
  | [], stop => next = stop
  | r :: rest, stop =>
    r.chunk.data ≠ [] ∧ r.chunk.seq = advance next r.skipped ∧ Follows r.chunk.endSeq rest stop

/-- Where the bytes of some releases lie, the first of which comes at position `p` unless positions are
given up.  Positions are plain numbers and do not wrap. -/
def positions (p : Nat) : List Release → List Nat
  | [] => []
  | r :: rest =>
    List.range' (p + r.skipped) r.chunk.data.length ++
      positions (p + r.skipped + r.chunk.data.length) rest

/-- The sequence numbers of the bytes of a chunk. -/
def Chunk.numbers (c : Chunk) : List Seq := (List.range c.data.length).map (advance c.seq)

namespace Follows

variable {next mid stop : Seq} {l l' : List Release}

theorem append (h : Follows next l mid) (h' : Follows mid l' stop) : Follows next (l ++ l') stop := by
  induction l generalizing next with
  | nil =>
      obtain rfl : next = mid := h
      exact h'
  | cons r rest ih =>
      obtain ⟨nonempty, seq, follows⟩ := h
      exact ⟨nonempty, seq, ih follows⟩

theorem nonempty (h : Follows next l stop) : ∀ r ∈ l, r.chunk.data ≠ [] := by
  induction l generalizing next with
  | nil => exact nofun
  | cons r rest ih =>
      obtain ⟨nonempty, -, follows⟩ := h
      intro x mem
      rcases List.mem_cons.1 mem with rfl | mem
      · exact nonempty
      · exact ih follows x mem

/-- They end where the last of them does. -/
theorem stop_eq (h : Follows next l stop) :
    stop = (l.getLast?.map (·.chunk.endSeq)).getD next := by
  induction l generalizing next with
  | nil => exact h.symm
  | cons r rest ih =>
      rw [ih h.2.2, List.getLast?_cons]
      cases rest.getLast? <;> rfl

/-- The bytes carry the numbers of their positions. -/
theorem numbers_eq {origin : Seq} {p : Nat} (h : Follows (advance origin p) l stop) :
    l.flatMap (·.chunk.numbers) = (positions p l).map (advance origin) := by
  induction l generalizing p with
  | nil => rfl
  | cons r rest ih =>
      obtain ⟨-, seq, follows⟩ := h
      rw [advance_advance] at seq
      rw [Chunk.endSeq, seq, advance_advance] at follows
      rw [List.flatMap_cons, ih follows, positions, List.map_append, Chunk.numbers, seq,
        List.range'_eq_map_range, List.map_map]
      refine congrArg (· ++ _) (List.map_congr_left fun i _ => ?_)
      exact advance_advance origin _ i

end Follows

theorem le_of_mem_positions {p : Nat} {l : List Release} : ∀ x ∈ positions p l, p ≤ x := by
  induction l generalizing p with
  | nil => exact nofun
  | cons r rest ih =>
      intro x mem
      rcases List.mem_append.1 mem with mem | mem
      · have := (List.mem_range'_1.1 mem).1
        omega
      · have := ih x mem
        omega

/-- **Positions only grow**, so that none comes twice. -/
theorem pairwise_positions (p : Nat) (l : List Release) : (positions p l).Pairwise (· < ·) := by
  induction l generalizing p with
  | nil => exact List.Pairwise.nil
  | cons r rest ih =>
      refine List.pairwise_append.2 ⟨List.pairwise_lt_range', ih _, fun x mem y mem' => ?_⟩
      have := (List.mem_range'_1.1 mem).2
      have := le_of_mem_positions y mem'
      omega

/-! ### One step -/

/-- The chunks as releases without a hole in front of them. -/
def inPlace (chunks : List Chunk) : List Release := chunks.map fun c => { chunk := c }

namespace ReorderBuffer

/-- What some chunks at hand lead to from a number on: `out` comes out, the rest of them is kept for
later. -/
structure Sequenced (next : Seq) (atHand : List Chunk) (out : List Release) (b : ReorderBuffer) :
    Prop where
  exists_stop : ∃ stop, b.nextSeq = some stop ∧ Follows next out stop ∧
    ∀ c ∈ b.held, after c.seq stop = true
  tails : ∀ r ∈ out, ∃ c ∈ atHand, r.chunk.IsTailOf c
  kept : b.held ⊆ atHand

namespace Sequenced

variable {next : Seq} {atHand more : List Chunk} {out : List Release} {b : ReorderBuffer}

theorem mono (h : Sequenced next atHand out b) (sub : atHand ⊆ more) : Sequenced next more out b where
  exists_stop := h.exists_stop
  tails r mem := (h.tails r mem).imp fun _ found => ⟨sub found.1, found.2⟩
  kept := List.Subset.trans h.kept sub

/-- A release comes in front of what follows it. -/
theorem cons {r : Release} {c : Chunk} (h : Sequenced r.chunk.endSeq atHand out b)
    (nonempty : r.chunk.data ≠ []) (seq : r.chunk.seq = advance next r.skipped) (mem : c ∈ atHand)
    (tail : r.chunk.IsTailOf c) : Sequenced next atHand (r :: out) b where
  exists_stop :=
    h.exists_stop.imp fun _ found => ⟨found.1, ⟨nonempty, seq, found.2.1⟩, found.2.2⟩
  tails x inside := by
    rcases List.mem_cons.1 inside with rfl | inside
    · exact ⟨c, mem, tail⟩
    · exact h.tails x inside
  kept := h.kept

end Sequenced

variable {held : List Chunk}

/-- Taking held chunks out sequences them. -/
theorem sequenced_collect (next : Seq) (short : ∀ c ∈ held, c.data.length < 0x80000000) :
    Sequenced next held (inPlace (collect next held).1) (collect next held).2 := by
  fun_induction collect next held with
  | case1 next held none =>
      refine ⟨⟨next, rfl, rfl, fun c mem => ?_⟩, fun r mem => absurd mem List.not_mem_nil,
        List.Subset.refl _⟩
      simpa [atOrBefore] using swapRemove_eq_none none c mem
  | case2 next held c others taken shorter stale ih =>
      have sub : others ⊆ held := fun d mem =>
        (perm_of_swapRemove taken).symm.subset (List.mem_cons_of_mem c mem)
      exact (ih fun d mem => short d (sub mem)).mono sub
  | case3 next held c others taken shorter new chunks b eq ih =>
      have sub : others ⊆ held := fun d mem =>
        (perm_of_swapRemove taken).symm.subset (List.mem_cons_of_mem c mem)
      obtain ⟨mem, reaches⟩ := mem_of_swapRemove taken
      obtain ⟨nonempty, tail⟩ := Chunk.trimTo_of_reaches (short c mem)
        (by simpa [atOrBefore] using reaches) (by simpa [atOrBefore] using new)
      have later := (ih fun d mem => short d (sub mem)).mono sub
      rw [eq, ← tail.endSeq] at later
      exact later.cons (r := ⟨0, c.trimTo next⟩) nonempty (advance_zero next).symm mem tail

/-- Letting a chunk out that reaches a position, or starts there, sequences it and those held. -/
theorem sequenced_release {c : Chunk} {next seq : Seq} {skipped : Nat}
    (short : ∀ d ∈ held, d.data.length < 0x80000000) (nonempty : (c.trimTo seq).data ≠ [])
    (tail : (c.trimTo seq).IsTailOf c) (start : seq = advance next skipped) :
    ∃ rest, (release c seq held).1 = c.trimTo seq :: rest ∧
      Sequenced next (c :: held) (⟨skipped, c.trimTo seq⟩ :: inPlace rest)
        (release c seq held).2 := by
  refine ⟨_, rfl, ?_⟩
  have later := (sequenced_collect (c.trimTo seq).endSeq short).mono (List.subset_cons_self c held)
  exact later.cons (r := ⟨skipped, c.trimTo seq⟩) nonempty start List.mem_cons_self tail

end ReorderBuffer

/-! ### Runs -/

/-- What a reorder buffer may be asked to do. -/
inductive BufferCall where
  | sync (seq : Seq)
  | push (chunk : Chunk)
  | skipGap
  | clear
deriving DecidableEq

namespace BufferCall

/-- The chunk pushed. -/
def pushed : BufferCall → Option Chunk
  | push c => some c
  | sync _ | skipGap | clear => none

/-- The number an unanchored buffer is anchored at: the one given, or that of the first byte. -/
def anchor? : BufferCall → Option Seq
  | sync seq => some seq
  | push c => if c.data = [] then none else some c.seq
  | skipGap | clear => none

end BufferCall

namespace ReorderBuffer

/-- The buffer after a call. -/
def call (b : ReorderBuffer) : BufferCall → ReorderBuffer
  | .sync seq => b.sync seq
  | .push c => (b.push c).1
  | .skipGap => (b.skipGap?.map (·.buffer)).getD b
  | .clear => b.clear

/-- What a call lets out.  The positions a hole is given up for lie in front of the first chunk. -/
def released (b : ReorderBuffer) : BufferCall → List Release
  | .push c => inPlace (b.push c).2.released
  | .skipGap =>
    match b.skipGap? with
    | none => []
    | some skip =>
      match skip.chunks with
      | [] => []
      | first :: rest => ⟨skip.skipped, first⟩ :: inPlace rest
  | .sync _ | .clear => []

/-- The buffer after some calls. -/
def callAll (b : ReorderBuffer) (calls : List BufferCall) : ReorderBuffer := calls.foldl call b

/-- What some calls let out, in order. -/
def releases (b : ReorderBuffer) : List BufferCall → List Release
  | [] => []
  | call :: rest => b.released call ++ (b.call call).releases rest

theorem callAll_concat (b : ReorderBuffer) (calls : List BufferCall) (call : BufferCall) :
    b.callAll (calls ++ [call]) = (b.callAll calls).call call := List.foldl_append

theorem releases_concat (b : ReorderBuffer) (calls : List BufferCall) (call : BufferCall) :
    b.releases (calls ++ [call]) = b.releases calls ++ (b.callAll calls).released call := by
  induction calls generalizing b with
  | nil => exact List.append_nil _
  | cons first rest ih =>
      show b.released first ++ (b.call first).releases (rest ++ [call]) = _
      rw [ih, ← List.append_assoc]
      rfl

/-- Giving a hole up lets the earliest held chunk out first, and skips exactly the positions in front of
it; without an anchor or a held chunk there is no hole. -/
def SkipsToEarliest (b : ReorderBuffer) : Prop :=
  match b.skipGap? with
  | none => b.nextSeq = none ∨ b.held = []
  | some skip => ∃ next earliest, b.nextSeq = some next ∧ earliest ∈ b.held ∧
      (∀ c ∈ b.held, earliest.offset next ≤ c.offset next) ∧
      skip.skipped = earliest.offset next ∧ skip.chunks.head? = some earliest

/-- Either there is no hole to give up, or the earliest held chunk comes out from its own start on. -/
theorem skipGap?_cases (b : ReorderBuffer) :
    b.skipGap? = none ∧ (b.nextSeq = none ∨ b.held = []) ∨
      ∃ next earliest others, b.nextSeq = some next ∧ b.held.Perm (earliest :: others) ∧
        (∀ c ∈ b.held, earliest.offset next ≤ c.offset next) ∧
        b.skipGap? = some {
          buffer := (release earliest earliest.seq others).2
          skipped := earliest.offset next
          chunks := (release earliest earliest.seq others).1 } := by
  unfold skipGap?
  cases b.nextSeq with
  | none => exact Or.inl ⟨rfl, Or.inl rfl⟩
  | some next =>
      rw [Option.bind_eq_bind, Option.bind_some]
      cases min : (b.held.map (Chunk.offset next)).min? with
      | none =>
          refine Or.inl ⟨?_, Or.inr (List.map_eq_nil_iff.1 (List.min?_eq_none_iff.1 min))⟩
          exact congrArg (Option.bind · _) min
      | some nearest =>
          obtain ⟨mem, least⟩ := List.min?_eq_some_iff.1 min
          obtain ⟨c, inside, distance⟩ := List.mem_map.1 mem
          cases taken : swapRemove (fun c => Chunk.offset next c == nearest) b.held with
          | none =>
              have other := swapRemove_eq_none taken c inside
              rw [distance, beq_self_eq_true] at other
              cases other
          | some found =>
              obtain ⟨earliest, others⟩ := found
              have near : earliest.offset next = nearest :=
                eq_of_beq (mem_of_swapRemove taken).2
              refine Or.inr ⟨next, earliest, others, rfl, perm_of_swapRemove taken, ?_, ?_⟩
              · intro d inside
                exact near ▸ least _ (List.mem_map_of_mem inside)
              · rw [near]
                refine (congrArg (Option.bind · _) min).trans ?_
                exact (congrArg (Option.bind · _) taken :)

/-- The first chunk of a release is the one let out. -/
theorem head?_release (c : Chunk) (held : List Chunk) : (release c c.seq held).1.head? = some c :=
  congrArg some c.trimTo_seq

theorem skipsToEarliest (b : ReorderBuffer) : b.SkipsToEarliest := by
  unfold SkipsToEarliest
  rcases b.skipGap?_cases with ⟨none, nothing⟩ | ⟨next, c, others, anchor, perm, least, skip⟩
  · rw [none]
    exact nothing
  · rw [skip]
    exact ⟨next, c, anchor, perm.symm.subset List.mem_cons_self, least, rfl, head?_release c others⟩

/-- The calls, the numbers they anchor the buffer at, and what they let out. -/
structure Ordered (pushed : List Chunk) (anchor : Option Seq) (out : List Release)
    (b : ReorderBuffer) : Prop where
  unanchored : b.nextSeq = none → anchor = none ∧ out = [] ∧ b.held = []
  anchored : ∀ stop, b.nextSeq = some stop → ∃ origin, anchor = some origin ∧ Follows origin out stop
  tails : ∀ r ∈ out, ∃ c ∈ pushed, r.chunk.IsTailOf c
  held : ∀ c ∈ b.held, c ∈ pushed ∧ c.data ≠ []
  ahead : ∀ next, b.nextSeq = some next → ∀ c ∈ b.held, after c.seq next = true

namespace Ordered

variable {pushed : List Chunk} {anchor : Option Seq} {out : List Release} {b : ReorderBuffer}

theorem new : Ordered [] none [] {} where
  unanchored _ := ⟨rfl, rfl, rfl⟩
  anchored := nofun
  tails := nofun
  held := nofun
  ahead := nofun

/-- What is sequenced from the next number on keeps the order. -/
theorem sequenced (h : Ordered pushed anchor out b) {next : Seq} (anchored : b.nextSeq = some next)
    {atHand pushed' : List Chunk} {out' : List Release} {b' : ReorderBuffer}
    (step : Sequenced next atHand out' b') (more : pushed ⊆ pushed')
    (known : ∀ c ∈ atHand, c ∈ pushed' ∧ c.data ≠ []) :
    Ordered pushed' anchor (out ++ out') b' := by
  obtain ⟨stop, next', follows, ahead⟩ := step.exists_stop
  obtain ⟨origin, same, before⟩ := h.anchored next anchored
  refine ⟨?_, ?_, ?_, fun c mem => known c (step.kept mem), ?_⟩
  · intro none
    rw [next'] at none
    cases none
  · intro stop' last
    obtain rfl := Option.some.inj (next'.symm.trans last)
    exact ⟨origin, same, before.append follows⟩
  · intro r mem
    rcases List.mem_append.1 mem with mem | mem
    · exact (h.tails r mem).imp fun _ found => ⟨more found.1, found.2⟩
    · exact (step.tails r mem).imp fun c found => ⟨(known c found.1).1, found.2⟩
  · intro stop' last
    obtain rfl := Option.some.inj (next'.symm.trans last)
    exact ahead

/-- Nothing comes out, and the buffer stays, or holds less. -/
theorem quiet (h : Ordered pushed anchor out b) {held : List Chunk} (fewer : held ⊆ b.held)
    {pushed' : List Chunk} (more : pushed ⊆ pushed') :
    Ordered pushed' anchor out { b with held } where
  unanchored none := by
    obtain ⟨unanchored, nothing, empty⟩ := h.unanchored none
    exact ⟨unanchored, nothing, List.subset_nil.1 (empty ▸ fewer)⟩
  anchored := h.anchored
  tails r mem := (h.tails r mem).imp fun _ found => ⟨more found.1, found.2⟩
  held c mem := ⟨more (h.held c (fewer mem)).1, (h.held c (fewer mem)).2⟩
  ahead next same c mem := h.ahead next same c (fewer mem)

/-- An anchor, once there, stays. -/
theorem or_anchor (h : Ordered pushed anchor out b) {next : Seq} (anchored : b.nextSeq = some next)
    (later : Option Seq) : anchor.or later = anchor := by
  obtain ⟨origin, rfl, -⟩ := h.anchored next anchored
  rfl

theorem sync (h : Ordered pushed anchor out b) (seq : Seq) :
    Ordered pushed (anchor.or (some seq)) out (b.sync seq) := by
  unfold ReorderBuffer.sync
  cases anchored : b.nextSeq with
  | none =>
      obtain ⟨rfl, rfl, empty⟩ := h.unanchored anchored
      refine ⟨nofun, fun stop same => ⟨seq, rfl, Option.some.inj same⟩, nofun, h.held, ?_⟩
      intro next _ c mem
      rw [empty] at mem
      cases mem
  | some next =>
      rw [h.or_anchor anchored]
      exact (congrArg (ReorderBuffer.mk · b.held) anchored) ▸ h

/-- A chunk behind a hole is held as well. -/
theorem hold (h : Ordered pushed anchor out b) {c : Chunk} (nonempty : c.data ≠ []) {next : Seq}
    (anchored : b.nextSeq = some next) (behind : after c.seq next = true) :
    Ordered (pushed ++ [c]) anchor out { b with held := b.held ++ [c] } where
  unanchored none := by
    rw [anchored] at none
    cases none
  anchored := h.anchored
  tails r mem := (h.tails r mem).imp fun _ found => ⟨List.mem_append_left _ found.1, found.2⟩
  held d mem := by
    rcases List.mem_append.1 mem with mem | mem
    · exact ⟨List.mem_append_left _ (h.held d mem).1, (h.held d mem).2⟩
    · obtain rfl := List.mem_singleton.1 mem
      exact ⟨List.mem_append_right _ mem, nonempty⟩
  ahead next' same d mem := by
    rcases List.mem_append.1 mem with mem | mem
    · exact h.ahead next' same d mem
    · obtain rfl := List.mem_singleton.1 mem
      obtain rfl := Option.some.inj (anchored.symm.trans same)
      exact behind

variable (h : Ordered pushed anchor out b) (short : ∀ d ∈ pushed, d.data.length < 0x80000000)

include h short

theorem short_held : ∀ d ∈ b.held, d.data.length < 0x80000000 := fun d mem =>
  short d (h.held d mem).1

theorem push {c : Chunk} (short' : c.data.length < 0x80000000) :
    Ordered (pushed ++ [c]) (anchor.or (BufferCall.push c).anchor?)
      (out ++ inPlace (b.push c).2.released) (b.push c).1 := by
  have more : pushed ⊆ pushed ++ [c] := List.subset_append_left _ _
  have stays := h.quiet (List.Subset.refl b.held) more
  rw [show (BufferCall.push c).anchor? = if c.data = [] then none else some c.seq from rfl,
    ReorderBuffer.push]
  by_cases empty : c.data = []
  · rw [if_pos empty, if_pos empty, Option.or_none]
    exact (List.append_nil out).symm ▸ stays
  · rw [if_neg empty, if_neg empty]
    split
    · rename_i unanchored
      obtain ⟨rfl, rfl, nothing⟩ := h.unanchored unanchored
      refine ⟨fun none => absurd none (Option.some_ne_none _),
        fun stop same => ⟨c.seq, rfl, empty, (advance_zero c.seq).symm, ?_⟩, ?_, stays.held, ?_⟩
      · exact Option.some.inj same
      · intro r mem
        obtain rfl := List.mem_singleton.1 mem
        exact ⟨c, List.mem_append_right _ List.mem_cons_self, .refl c⟩
      · intro next _ d mem
        rw [nothing] at mem
        cases mem
    · rename_i next anchored
      rw [h.or_anchor anchored]
      split
      · exact (List.append_nil out).symm ▸ stays
      · rename_i new
        have new : after c.endSeq next = true := by simpa [atOrBefore] using new
        split
        · rename_i behind
          refine (List.append_nil out).symm ▸ ?_
          dsimp only
          split
          · exact stays
          · exact h.hold empty anchored behind
        · rename_i reaches
          obtain ⟨some, tail⟩ := Chunk.trimTo_of_reaches short' (Bool.not_eq_true _ ▸ reaches) new
          obtain ⟨rest, chunks, step⟩ := sequenced_release (h.short_held short) some tail
            (advance_zero next).symm
          have known : ∀ d ∈ c :: b.held, d ∈ pushed ++ [c] ∧ d.data ≠ [] := by
            intro d mem
            rcases List.mem_cons.1 mem with rfl | mem
            · exact ⟨List.mem_append_right _ List.mem_cons_self, empty⟩
            · exact ⟨more (h.held d mem).1, (h.held d mem).2⟩
          have ordered := h.sequenced anchored step more known
          dsimp only [ReorderEvent.released]
          rw [chunks]
          exact ordered

theorem skipGap : Ordered pushed anchor (out ++ b.released .skipGap) (b.call .skipGap) := by
  unfold released call
  rcases b.skipGap?_cases with ⟨none, -⟩ | ⟨next, c, others, anchored, perm, -, skip⟩
  · rw [none]
    exact (List.append_nil out).symm ▸ h
  · have inside : c :: others ⊆ b.held := perm.symm.subset
    obtain ⟨-, nonempty⟩ := h.held c (inside List.mem_cons_self)
    have whole : (c.trimTo c.seq).data ≠ [] ∧ (c.trimTo c.seq).IsTailOf c := by
      rw [c.trimTo_seq]
      exact ⟨nonempty, .refl c⟩
    have fits := h.short_held short
    obtain ⟨rest, chunks, step⟩ := sequenced_release
      (fun d mem => fits d (inside (List.mem_cons_of_mem c mem))) whole.1 whole.2 (c.seq_eq next)
    rw [skip]
    dsimp only
    rw [chunks]
    exact h.sequenced anchored step (List.Subset.refl _) fun d mem => h.held d (inside mem)

/-- **Each call keeps the order.** -/
theorem call (request : BufferCall) (short' : ∀ c ∈ request.pushed, c.data.length < 0x80000000) :
    Ordered (pushed ++ request.pushed.toList) (anchor.or request.anchor?)
      (out ++ b.released request) (b.call request) := by
  cases request with
  | sync seq =>
      rw [released, List.append_nil]
      exact (List.append_nil pushed).symm ▸ h.sync seq
  | push c => exact h.push short (short' c rfl)
  | skipGap =>
      rw [show anchor.or (BufferCall.anchor? .skipGap) = anchor from Option.or_none]
      exact (List.append_nil pushed).symm ▸ h.skipGap short
  | clear =>
      rw [show anchor.or (BufferCall.anchor? .clear) = anchor from Option.or_none, released,
        List.append_nil]
      exact h.quiet (List.nil_subset _) (List.subset_append_left _ _)

end Ordered

/-- The number a run anchors its buffer at. -/
def anchorOf (calls : List BufferCall) : Option Seq := calls.findSome? BufferCall.anchor?

/-- **A run keeps the order.** -/
theorem ordered_callAll {calls : List BufferCall}
    (short : ∀ c ∈ calls.filterMap BufferCall.pushed, c.data.length < 0x80000000) :
    Ordered (calls.filterMap BufferCall.pushed) (anchorOf calls) (releases {} calls)
      (callAll {} calls) := by
  induction calls using List.reverseRecOn with
  | nil => exact .new
  | append_singleton calls call ih =>
      have last : [call].filterMap BufferCall.pushed = call.pushed.toList := by cases call <;> rfl
      rw [List.filterMap_append, last] at short ⊢
      have earlier := ih fun c mem => short c (List.mem_append_left _ mem)
      have step := earlier.call (fun c mem => short c (List.mem_append_left _ mem)) call
        fun c mem => short c (List.mem_append_right _ (Option.mem_toList.2 mem))
      rw [releases_concat, callAll_concat, anchorOf, List.findSome?_append, List.findSome?_singleton]
      exact step

/-- What holds after every run of a new buffer. -/
structure InSequence (calls : List BufferCall) : Prop where
  /-- A chunk that comes out holds the last bytes of a chunk pushed, in their place. -/
  tails : ∀ r ∈ releases {} calls, r.chunk.data ≠ [] ∧ ∃ c, .push c ∈ calls ∧ r.chunk.IsTailOf c
  /-- Chunks come out one behind the other, from the anchor on. -/
  follows : ∀ origin, anchorOf calls = some origin →
    ∃ stop, Follows origin (releases {} calls) stop
  unanchored : anchorOf calls = none → releases {} calls = []
  /-- The next number is the end of what came out last. -/
  next : (callAll {} calls).nextSeq =
    ((releases {} calls).getLast?.map (·.chunk.endSeq)).or (anchorOf calls)
  /-- What is held lies strictly ahead of it, by less than half a turn. -/
  ahead : ∀ c ∈ (callAll {} calls).held, ∃ next, (callAll {} calls).nextSeq = some next ∧
    0 < c.offset next ∧ c.offset next < 0x80000000
  /-- A hole given up now would be the one in front of the earliest held chunk. -/
  skips : (callAll {} calls).SkipsToEarliest
  /-- The bytes that came out carry the numbers of their positions, counted from the anchor. -/
  numbers : ∀ origin, anchorOf calls = some origin →
    (releases {} calls).flatMap (·.chunk.numbers) =
      (positions 0 (releases {} calls)).map (advance origin)
  /-- Positions only grow. -/
  grow : (positions 0 (releases {} calls)).Pairwise (· < ·)

/-- **Reordering with skips is safe.**  Whatever a new buffer is asked to do with chunks shorter than half
a turn, the bytes it lets out lie at growing positions behind its anchor, and skips give up just the
positions in front of the earliest chunk. -/
theorem inSequence_of_short (calls : List BufferCall)
    (short : ∀ c, .push c ∈ calls → c.data.length < 0x80000000) : InSequence calls := by
  have mem_calls : ∀ c ∈ calls.filterMap BufferCall.pushed, .push c ∈ calls := by
    intro c mem
    obtain ⟨call, inside, pushed⟩ := List.mem_filterMap.1 mem
    cases call with
    | push d => exact Option.some.inj pushed ▸ inside
    | sync seq => cases pushed
    | skipGap => cases pushed
    | clear => cases pushed
  have ordered := ordered_callAll fun c mem => short c (mem_calls c mem)
  have follows : ∀ origin, anchorOf calls = some origin →
      ∃ stop, (callAll {} calls).nextSeq = some stop ∧ Follows origin (releases {} calls) stop := by
    intro origin anchor
    cases next : (callAll {} calls).nextSeq with
    | none =>
        rw [(ordered.unanchored next).1] at anchor
        cases anchor
    | some stop =>
        obtain ⟨origin', anchor', follows⟩ := ordered.anchored stop next
        obtain rfl := Option.some.inj (anchor.symm.trans anchor')
        exact ⟨stop, rfl, follows⟩
  have unanchored : anchorOf calls = none → (callAll {} calls).nextSeq = none := by
    intro none
    cases next : (callAll {} calls).nextSeq with
    | none => rfl
    | some stop =>
        obtain ⟨origin, anchor, -⟩ := ordered.anchored stop next
        rw [none] at anchor
        cases anchor
  exact {
    tails := by
      intro r mem
      obtain ⟨c, pushed, tail⟩ := ordered.tails r mem
      refine ⟨?_, c, mem_calls c pushed, tail⟩
      cases anchor : anchorOf calls with
      | none =>
          rw [(ordered.unanchored (unanchored anchor)).2.1] at mem
          cases mem
      | some origin =>
          obtain ⟨stop, -, follows⟩ := follows origin anchor
          exact follows.nonempty r mem
    follows := fun origin anchor => (follows origin anchor).imp fun _ found => found.2
    unanchored := fun none => (ordered.unanchored (unanchored none)).2.1
    next := by
      cases anchor : anchorOf calls with
      | none =>
          have next := unanchored anchor
          rw [next, (ordered.unanchored next).2.1]
          rfl
      | some origin =>
          obtain ⟨stop, next, follows⟩ := follows origin anchor
          rw [next, follows.stop_eq]
          cases (releases {} calls).getLast? <;> rfl
    ahead := by
      intro c mem
      cases next : (callAll {} calls).nextSeq with
      | none =>
          rw [(ordered.unanchored next).2.2] at mem
          cases mem
      | some stop => exact ⟨stop, rfl, after_iff.1 (ordered.ahead stop next c mem)⟩
    skips := skipsToEarliest _
    numbers := by
      intro origin anchor
      obtain ⟨stop, -, follows⟩ := follows origin anchor
      exact Follows.numbers_eq ((advance_zero origin).symm ▸ follows)
    grow := pairwise_positions 0 _ }

/-- A run across the wrap: the hole in front of the second chunk is given up, and the first chunk is all
old when its bytes have come with another one. -/
theorem inSequence_wrapping :
    let calls : List BufferCall :=
      [.sync 0xfffffffe, .push ⟨6, 1, 0, [9, 10]⟩, .push ⟨2, 2, 0, [5, 6]⟩, .push ⟨3, 3, 0, [6, 7]⟩,
        .skipGap, .push ⟨5, 4, 0, [8, 9, 10, 11]⟩, .skipGap, .clear]
    (∀ c, .push c ∈ calls → c.data.length < 0x80000000) ∧ InSequence calls ∧
      releases {} calls =
        [⟨4, 2, 2, 0, [5, 6]⟩, ⟨0, 4, 3, 0, [7]⟩, ⟨0, 5, 4, 0, [8, 9, 10, 11]⟩] ∧
      positions 0 (releases {} calls) = [4, 5, 6, 7, 8, 9, 10] := by
  intro calls
  have short : ∀ c, .push c ∈ calls → c.data.length < 0x80000000 := by
    intro c mem
    simp only [calls, List.mem_cons, List.not_mem_nil, or_false, reduceCtorEq, false_or,
      BufferCall.push.injEq] at mem
    rcases mem with rfl | rfl | rfl | rfl <;> decide
  have released : releases {} calls =
      [⟨4, 2, 2, 0, [5, 6]⟩, ⟨0, 4, 3, 0, [7]⟩, ⟨0, 5, 4, 0, [8, 9, 10, 11]⟩] := by
    decide +kernel
  exact ⟨short, inSequence_of_short calls short, released, released ▸ rfl⟩

end ReorderBuffer

end TcpCapture
