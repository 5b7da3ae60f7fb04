import TcpCapture.Proofs.Pdu.OpenPdu

/-!
# Where the bytes of a stream end up

An assembler that cuts PDUs out of a stream takes every byte into account.  The stream is made up of the
PDUs delivered and the blocks dropped for bad lengths, in the order they came, and of what is still
collected.

## Main definitions

* `Assembler.Feed` — a chunk, with the framing and the verdicts it meets
* `Portion`, `Journal` — what became of a part of the stream, and of all that was fed
* `Portion.Placed` — PDUs carry the numbers of their places
* `Journal.Balanced` — the portions and what is collected make up the stream
* `Journal.balanced_of_consecutive` — so they do after any chunks that follow one another

**Any verdicts.**  Every chunk may meet a probe of its own.  One chunk never leads to two questions about
the same bytes, since each PDU cut off leaves fewer of them, so verdicts need not agree with each other in
any way.
-/

namespace TcpCapture

/-! ### Portions -/

/-- What became of a part of the stream. -/
inductive Portion where
  | delivered (pdu : Pdu)
  /-- Bytes dropped because a length could not be framed. -/
  | dropped (bytes : List UInt8)
deriving DecidableEq

namespace Portion

def bytes : Portion → List UInt8
  | .delivered pdu => pdu.data
  | .dropped bytes => bytes

/-- The bytes of some portions laid end to end. -/
def join (l : List Portion) : List UInt8 := l.flatMap bytes

/-- The portions lie end to end from position `p` on, and each PDU carries the number of its place. -/
def Placed (origin : Seq) (p : Nat) : List Portion → Prop
  | [] => True
  | .delivered pdu :: rest => pdu.seq = advance origin p ∧ Placed origin (p + pdu.data.length) rest
  | .dropped bytes :: rest => Placed origin (p + bytes.length) rest

theorem join_append (l l' : List Portion) : join (l ++ l') = join l ++ join l' :=
  List.flatMap_append

theorem join_delivered (pdus : List Pdu) : join (pdus.map .delivered) = pdus.flatMap (·.data) :=
  List.flatMap_map ..

variable {origin : Seq}

theorem placed_append {p : Nat} {l l' : List Portion} :
    Placed origin p (l ++ l') ↔ Placed origin p l ∧ Placed origin (p + (join l).length) l' := by
  induction l generalizing p with
  | nil => exact (iff_of_eq (true_and _)).symm
  | cons x rest ih =>
      have length : (join (x :: rest)).length = x.bytes.length + (join rest).length :=
        List.length_append
      rw [length, ← Nat.add_assoc]
      cases x with
      | delivered pdu => exact (and_congr_right fun _ => ih).trans and_assoc.symm
      | dropped bytes => exact ih

/-- A PDU lies as far behind the origin as the portions in front of it are long. -/
theorem Placed.seq_eq {front back : List Portion} {pdu : Pdu}
    (h : Placed origin 0 (front ++ .delivered pdu :: back)) :
    pdu.seq = advance origin (join front).length := by
  rw [(placed_append.1 h).2.1, Nat.zero_add]

end Portion

namespace Assembler

/-! ### What one chunk leads to -/

variable {a : Assembler} {framing : Framing} {probe : LengthProbe} {c : Chunk} {frame time p : Nat}
  {origin : Seq}

/-- What is drained is cut off the front, and what an error drops is not empty. -/
theorem exists_dropped_drain (failed : (a.drain framing probe frame time).error ≠ none) :
    ∃ lost, lost ≠ [] ∧ (a.drain framing probe frame time).pdus.flatMap (·.data) ++ lost =
      a.buffer := by
  fun_induction Assembler.drain a framing probe frame time with
  | case1 a empty => exact absurd rfl failed
  | case2 a nonempty n front short => exact absurd rfl failed
  | case3 a nonempty n front whole shorter rest ih =>
      obtain ⟨lost, some, split⟩ := ih failed
      refine ⟨lost, some, ?_⟩
      rw [List.flatMap_cons, List.append_assoc, split]
      exact List.take_append_drop n a.buffer
  | case4 a nonempty entire front => exact absurd rfl failed
  | case5 a nonempty front => exact absurd rfl failed
  | case6 a nonempty declared front => exact ⟨a.buffer, nonempty, rfl⟩

/-- PDUs are cut off one behind the other, and what is left begins where the last of them ends. -/
theorem placed_drain (framing : Framing) (probe : LengthProbe) (frame time : Nat)
    (seq : a.startSeq = advance origin p) :
    Portion.Placed origin p ((a.drain framing probe frame time).pdus.map .delivered) ∧
      (a.drain framing probe frame time).assembler.startSeq =
        advance origin (p + ((a.drain framing probe frame time).pdus.flatMap (·.data)).length) := by
  fun_induction Assembler.drain a framing probe frame time generalizing p with
  | case1 a empty => exact ⟨trivial, seq⟩
  | case2 a nonempty n front short => exact ⟨trivial, seq⟩
  | case3 a nonempty n front whole shorter rest =>
      rename_i ih
      have length : (a.cut n frame).data.length = n := List.length_take_of_le (Nat.not_lt.1 whole)
      have next : (a.afterCut n frame).startSeq = advance origin (p + n) :=
        (congrArg (advance · n) seq).trans (advance_advance origin p n)
      obtain ⟨placed, startSeq⟩ := ih next
      refine ⟨⟨seq, length.symm ▸ placed⟩, ?_⟩
      rw [List.flatMap_cons, List.length_append, length, ← Nat.add_assoc]
      exact startSeq
  | case4 a nonempty entire front => exact ⟨trivial, seq⟩
  | case5 a nonempty front => exact ⟨trivial, seq⟩
  | case6 a nonempty declared front => exact ⟨trivial, seq⟩

/-- No PDU cut off is empty, if the one in front is not. -/
theorem nonempty_drain (some : ∀ n, a.front framing probe = .length n → 0 < n) :
    ∀ pdu ∈ (a.drain framing probe frame time).pdus, pdu.data ≠ [] := by
  fun_induction Assembler.drain a framing probe frame time with
  | case1 a empty => exact fun pdu mem => absurd mem List.not_mem_nil
  | case2 a nonempty n front short => exact fun pdu mem => absurd mem List.not_mem_nil
  | case3 a nonempty n front whole shorter rest ih =>
      intro pdu mem
      rcases List.mem_cons.1 mem with rfl | mem
      · rintro none
        rcases List.take_eq_nil_iff.1 none with rfl | empty
        · exact Nat.lt_irrefl 0 (some 0 front)
        · exact nonempty empty
      · exact ih (fun _ => Front.ofProbe_length_pos) pdu mem
  | case4 a nonempty entire front => exact fun pdu mem => absurd mem List.not_mem_nil
  | case5 a nonempty front => exact fun pdu mem => absurd mem List.not_mem_nil
  | case6 a nonempty declared front => exact fun pdu mem => absurd mem List.not_mem_nil

/-- A length known beforehand goes beyond what was collected; nor is a segment asked for empty. -/
theorem Joined.length_pos {b : Assembler} (joined : a.Joined c b) (h : a.InStep)
    (nonempty : c.data ≠ []) : ∀ n, b.front framing probe = .length n → 0 < n := by
  intro n front
  unfold Assembler.front at front
  split at front
  · rename_i next accumulating
    obtain rfl := Front.length.inj front
    rcases joined.state with same | ⟨closed, small⟩
    · rw [accumulating] at same
      have busy : a.state ≠ .idle := fun idle => by rw [idle] at same; cases same
      obtain ⟨d, -, describes⟩ := h.described busy
      have longer := (describes.accumulating next same.symm).2.2
      rw [joined.startSeq, Assembler.start, if_neg busy]
      exact Nat.zero_lt_of_lt longer
    · rw [closed] at accumulating
      obtain rfl := AssemblyState.accumulating.inj accumulating
      rw [toNat_advance_sub_self b.startSeq small, joined.buffer, List.length_append]
      exact Nat.add_pos_right _ (List.length_pos_iff.2 nonempty)
  all_goals exact Front.ofProbe_length_pos front

/-- A chunk that follows what is collected is collected from the same position on. -/
theorem InStep.startSeq_start (h : a.InStep) (position : a.buffer ≠ [] → a.startSeq = advance origin p)
    (follows : c.seq = advance origin (p + a.buffer.length)) :
    (a.start c).startSeq = advance origin p := by
  unfold Assembler.start
  split
  · rename_i idle
    rw [h.idle_iff_buffer.1 idle] at follows
    exact follows
  · rename_i busy
    exact position fun none => busy (h.idle_iff_buffer.2 none)

/-- What feeding a chunk leads to: the bytes that were collected before, or came with it, are delivered,
dropped or collected. -/
structure Splits (origin : Seq) (p : Nat) (bytes : List UInt8) (out : Outcome) : Prop where
  collected : out.error = none →
    out.pdus.flatMap (·.data) ++ out.assembler.buffer = bytes
  dropped : out.error ≠ none → out.assembler.buffer = [] ∧
    ∃ lost, lost ≠ [] ∧ out.pdus.flatMap (·.data) ++ lost = bytes
  placed : Portion.Placed origin p (out.pdus.map .delivered)
  nonempty : ∀ pdu ∈ out.pdus, pdu.data ≠ []
  startSeq : out.assembler.startSeq = advance origin (p + (out.pdus.flatMap (·.data)).length)

/-- **One chunk** that follows what is collected splits all bytes at hand. -/
theorem InStep.splits_feed (h : a.InStep) (probe : LengthProbe) (desegment : framing.desegment = true)
    (nonempty : c.data ≠ []) (position : a.buffer ≠ [] → a.startSeq = advance origin p)
    (follows : c.seq = advance origin (p + a.buffer.length)) :
    Splits origin p (a.buffer ++ c.data) (a.feed framing probe c) := by
  have seq := h.startSeq_start position follows
  rcases a.feed_cases framing probe nonempty with ⟨alone, -⟩ | ⟨-, fed | ⟨b, joined, fed⟩⟩
  · rw [desegment] at alone
    cases alone
  · rw [fed]
    obtain ⟨descriptors, appended⟩ := (a.start c).append_eq c
    exact {
      collected := fun _ => a.buffer_start_append c
      dropped := fun failed => absurd rfl failed
      placed := trivial
      nonempty := nofun
      startSeq := by
        rw [appended]
        exact seq }
  · rw [fed, ← joined.buffer]
    obtain ⟨placed, startSeq⟩ :=
      placed_drain framing probe c.frame c.timestamp (joined.startSeq.trans seq)
    exact {
      collected := (ends_drain b framing probe c.frame c.timestamp).bytes
      dropped := fun failed => ⟨(isEmpty_drain_of_error failed).1.buffer, exists_dropped_drain failed⟩
      placed
      nonempty := nonempty_drain (joined.length_pos h nonempty)
      startSeq }

/-! ### The journal -/

/-- A chunk, with the framing and the verdicts it meets. -/
structure Feed where
  framing : Framing
  probe : LengthProbe
  chunk : Chunk

end Assembler

/-- All that was fed to a new assembler, and what became of it. -/
structure Journal where
  assembler : Assembler := {}
  fed : List UInt8 := []
  portions : List Portion := []

namespace Journal

/-- The bytes that were fed and do not belong to these portions, which are the first ones. -/
def beyond (fed : List UInt8) (portions : List Portion) : List UInt8 :=
  fed.drop (Portion.join portions).length

/-- The journal after one more chunk.  PDUs are delivered, and an error drops all that was fed and not
delivered or dropped before. -/
def feed (l : Journal) (f : Assembler.Feed) : Journal :=
  let out := l.assembler.feed f.framing f.probe f.chunk
  let fed := l.fed ++ f.chunk.data
  let portions := l.portions ++ out.pdus.map .delivered
  { assembler := out.assembler
    fed
    portions :=
      if out.error.isSome then portions ++ [.dropped (beyond fed portions)] else portions }

/-- The journal after some chunks. -/
def after (feeds : List Assembler.Feed) : Journal := feeds.foldl feed {}

theorem after_concat (feeds : List Assembler.Feed) (f : Assembler.Feed) :
    after (feeds ++ [f]) = (after feeds).feed f := List.foldl_append

theorem fed_after (feeds : List Assembler.Feed) :
    (after feeds).fed = feeds.flatMap (·.chunk.data) := by
  induction feeds using List.reverseRecOn with
  | nil => rfl
  | append_singleton feeds f ih =>
      rw [after_concat, List.flatMap_append, List.flatMap_singleton, ← ih]
      rfl

/-- The portions and what is collected make up the stream, in order, and each PDU carries the number of
its place. -/
structure Balanced (origin : Seq) (l : Journal) : Prop where
  tiled : Portion.join l.portions ++ l.assembler.buffer = l.fed
  seq : ∀ front pdu back, l.portions = front ++ .delivered pdu :: back →
    pdu.seq = advance origin (Portion.join front).length
  nonempty : ∀ x ∈ l.portions, x.bytes ≠ []

/-- The portions tile the stream up to what is collected, and the assembler knows where that begins. -/
structure Kept (origin : Seq) (l : Journal) : Prop where
  tiled : Portion.join l.portions ++ l.assembler.buffer = l.fed
  placed : Portion.Placed origin 0 l.portions
  nonempty : ∀ x ∈ l.portions, x.bytes ≠ []
  inStep : l.assembler.InStep
  position : l.assembler.buffer ≠ [] →
    l.assembler.startSeq = advance origin (Portion.join l.portions).length

variable {origin : Seq} {l : Journal} {f : Assembler.Feed}

/-- **One chunk** that follows what was fed is entered in its place. -/
theorem Kept.feed (h : Kept origin l) (desegment : f.framing.desegment = true)
    (nonempty : f.chunk.data ≠ []) (follows : f.chunk.seq = advance origin l.fed.length) :
    Kept origin (l.feed f) := by
  have inStep := h.inStep.feed f.framing f.probe f.chunk
  rw [← h.tiled, List.length_append] at follows
  have splits := h.inStep.splits_feed f.probe desegment nonempty h.position follows
  unfold Journal.feed
  generalize l.assembler.feed f.framing f.probe f.chunk = out at inStep splits ⊢
  have delivered : Portion.join (l.portions ++ out.pdus.map .delivered) =
      Portion.join l.portions ++ out.pdus.flatMap (·.data) := by
    rw [Portion.join_append, Portion.join_delivered]
  have placed : Portion.Placed origin 0 (l.portions ++ out.pdus.map .delivered) := by
    rw [Portion.placed_append, Nat.zero_add]
    exact ⟨h.placed, splits.placed⟩
  have some : ∀ x ∈ l.portions ++ out.pdus.map .delivered, x.bytes ≠ [] := by
    intro x mem
    rcases List.mem_append.1 mem with mem | mem
    · exact h.nonempty x mem
    · obtain ⟨pdu, inside, rfl⟩ := List.mem_map.1 mem
      exact splits.nonempty pdu inside
  have whole : Portion.join l.portions ++ (l.assembler.buffer ++ f.chunk.data) =
      l.fed ++ f.chunk.data := by
    rw [← List.append_assoc, h.tiled]
  dsimp only
  split
  · rename_i failed
    obtain ⟨empty, lost, loses, split⟩ := splits.dropped (Option.isSome_iff_ne_none.1 failed)
    have block : beyond (l.fed ++ f.chunk.data) (l.portions ++ out.pdus.map .delivered) = lost := by
      rw [beyond, delivered, ← whole, ← split, ← List.append_assoc, List.drop_left]
    rw [block]
    refine ⟨?_, ?_, ?_, inStep, fun busy => absurd empty busy⟩
    · rw [empty, List.append_nil, Portion.join_append, delivered, List.append_assoc, ← whole, ← split]
      exact congrArg (_ ++ ·) (congrArg (_ ++ ·) (List.append_nil lost))
    · exact Portion.placed_append.2 ⟨placed, trivial⟩
    · intro x mem
      rcases List.mem_append.1 mem with mem | mem
      · exact some x mem
      · obtain rfl := List.mem_singleton.1 mem
        exact loses
  · rename_i fine
    refine ⟨?_, placed, some, inStep, fun _ => ?_⟩
    · rw [delivered, List.append_assoc, splits.collected (Option.not_isSome_iff_eq_none.1 fine), whole]
    · rw [delivered, List.length_append]
      exact splits.startSeq

theorem Kept.balanced (h : Kept origin l) : Balanced origin l where
  tiled := h.tiled
  seq _ _ _ split := Portion.Placed.seq_eq (split ▸ h.placed)
  nonempty := h.nonempty

/-- **A run** enters every chunk in its place. -/
theorem kept_after {feeds : List Assembler.Feed}
    (desegment : ∀ f ∈ feeds, f.framing.desegment = true)
    (consecutive : Consecutive origin (feeds.map (·.chunk))) : Kept origin (after feeds) := by
  induction feeds using List.reverseRecOn with
  | nil =>
      have inStep : Assembler.InStep {} := Assembler.IsEmpty.inStep ⟨rfl, rfl, rfl⟩
      exact ⟨rfl, trivial, nofun, inStep, fun busy => absurd rfl busy⟩
  | append_singleton feeds f ih =>
      rw [List.map_append, List.map_singleton, consecutive_concat] at consecutive
      obtain ⟨consecutive, nonempty, follows⟩ := consecutive
      have earlier := ih (fun g mem => desegment g (List.mem_append_left _ mem)) consecutive
      rw [List.flatMap_map, ← fed_after] at follows
      rw [after_concat]
      exact earlier.feed (desegment f (List.mem_append_right _ List.mem_cons_self)) nonempty follows

/-- **Delivered PDUs tile the stream.**  Whatever the verdicts on chunks that follow one another, the PDUs
delivered and the blocks dropped with errors make up the stream in the order they came, up to the bytes
collected, and each PDU carries the number of its first byte. -/
theorem balanced_of_consecutive {feeds : List Assembler.Feed}
    (desegment : ∀ f ∈ feeds, f.framing.desegment = true)
    (consecutive : Consecutive origin (feeds.map (·.chunk))) :
    Balanced origin (after feeds) ∧ (after feeds).fed = feeds.flatMap (·.chunk.data) :=
  ⟨(kept_after desegment consecutive).balanced, fed_after feeds⟩

/-- A run across the wrap, with a probe that first wants one more segment, then believes the first byte,
and at last takes all that comes to be one PDU. -/
theorem balanced_inconsistent :
    let framing : Framing := {}
    let believing : LengthProbe := fun bytes =>
      match bytes with
      | 8 :: _ => .untilClose
      | n :: _ => .known n.toNat
      | [] => .needMore
    let feeds : List Assembler.Feed := [
      ⟨framing, fun _ => .oneMoreSegment, ⟨0xfffffffa, 1, 0, [1, 2]⟩⟩,
      ⟨framing, fun _ => .needMore, ⟨0xfffffffc, 2, 0, [3]⟩⟩,
      ⟨framing, believing, ⟨0xfffffffd, 3, 0, [2, 9, 0, 7]⟩⟩,
      ⟨framing, fun _ => .needMore, ⟨1, 4, 0, [3]⟩⟩,
      ⟨framing, believing, ⟨2, 5, 0, [6, 7, 8]⟩⟩]
    (∀ f ∈ feeds, f.framing.desegment = true) ∧
      Consecutive 0xfffffffa (feeds.map (·.chunk)) ∧
      (Balanced 0xfffffffa (after feeds) ∧ (after feeds).fed = feeds.flatMap (·.chunk.data)) ∧
      (after feeds).portions = [
        .delivered ⟨0xfffffffa, [1, 2, 3], 1, 2, true⟩, .delivered ⟨0xfffffffd, [2, 9], 3, 3, true⟩,
        .dropped [0, 7], .delivered ⟨1, [3, 6, 7], 4, 5, true⟩] ∧
      (after feeds).assembler.buffer = [8] := by
  intro framing believing feeds
  have desegment : ∀ f ∈ feeds, f.framing.desegment = true := by
    intro f mem
    simp only [feeds, List.mem_cons, List.not_mem_nil, or_false] at mem
    rcases mem with rfl | rfl | rfl | rfl | rfl <;> rfl
  have consecutive : Consecutive 0xfffffffa (feeds.map (·.chunk)) := by
    simp only [feeds, List.map_cons, List.map_nil, Consecutive, Chunk.endSeq]
    decide
  exact ⟨desegment, consecutive, balanced_of_consecutive desegment consecutive, by cbv, by cbv⟩

end Journal

end TcpCapture
