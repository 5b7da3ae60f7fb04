import TcpCapture.Proofs.Flow.Release
import TcpCapture.Proofs.Pdu.BadLength
import TcpCapture.Proofs.Session.Payload

/-!
# Bytes on their way

A direction holds bytes back in its reorder buffer and collects bytes in its assembler.  Bytes may be
given up on the way, or come twice and count once, but none is made: what is delivered and what is still
on its way never exceed what arrived.

## Main definitions

* `Flow.bytes` — the bytes a direction has on their way
* `Connection.bytes_handle` — one segment brings no more than its payload
-/

namespace TcpCapture

/-! ### Reordering -/

theorem Chunk.length_trimTo (c : Chunk) (seq : Seq) :
    (c.trimTo seq).data.length = c.data.length - (seq - c.seq).toNat := List.length_drop

namespace ReorderBuffer

theorem bytes_collect (next : Seq) (held : List Chunk) :
    totalOf (·.data.length) (collect next held).1 + (collect next held).2.heldBytes ≤
      totalOf (·.data.length) held := by
  fun_induction collect next held with
  | case1 next held none => exact Nat.le_of_eq (Nat.zero_add _)
  | case2 next held c others taken shorter stale ih =>
      have total : totalOf (·.data.length) held = c.data.length + totalOf (·.data.length) others :=
        totalOf_perm (perm_of_swapRemove taken)
      omega
  | case3 next held c others taken shorter new chunks b eq ih =>
      have total : totalOf (·.data.length) held = c.data.length + totalOf (·.data.length) others :=
        totalOf_perm (perm_of_swapRemove taken)
      have trimmed := c.length_trimTo next
      rw [totalOf_cons]
      rw [eq] at ih
      dsimp only at ih ⊢
      omega

/-- A chunk let out from a position on brings what is new in it. -/
theorem bytes_release (c : Chunk) (seq : Seq) (held : List Chunk) :
    totalOf (·.data.length) (release c seq held).1 + (release c seq held).2.heldBytes ≤
      c.data.length - (seq - c.seq).toNat + totalOf (·.data.length) held := by
  have collected := bytes_collect (c.trimTo seq).endSeq held
  have trimmed := c.length_trimTo seq
  unfold release
  dsimp only
  rw [totalOf_cons]
  omega

/-- A push brings no more than its chunk, and of a chunk that starts before the position to come out
next no more than what is new. -/
theorem bytes_push (b : ReorderBuffer) (c : Chunk) :
    totalOf (·.data.length) (b.push c).2.released + (b.push c).1.heldBytes ≤
        c.data.length + b.heldBytes ∧
      ∀ expected, b.nextSeq = some expected → after c.seq expected = false →
        totalOf (·.data.length) (b.push c).2.released + (b.push c).1.heldBytes ≤
          c.data.length - (expected - c.seq).toNat + b.heldBytes := by
  -- a chunk that does not come out brings nothing
  have stays : totalOf (·.data.length) ([] : List Chunk) + b.heldBytes ≤ b.heldBytes :=
    Nat.le_of_eq (Nat.zero_add _)
  unfold push
  split
  · exact ⟨Nat.le_add_left_of_le stays, fun _ _ _ => Nat.le_add_left_of_le stays⟩
  · split
    · rename_i none
      refine ⟨Nat.le_refl _, fun expected next => ?_⟩
      rw [none] at next
      cases next
    · rename_i expected next
      have released := bytes_release c expected b.held
      split
      · exact ⟨Nat.le_add_left_of_le stays, fun _ _ _ => Nat.le_add_left_of_le stays⟩
      · split
        · rename_i ahead
          refine ⟨?_, fun expected' next' reached => ?_⟩
          · dsimp only
            split
            · exact Nat.le_add_left_of_le stays
            · rw [heldBytes, totalOf_append, heldBytes]
              exact Nat.le_of_eq (by rw [Nat.add_comm c.data.length]; exact Nat.zero_add _)
          · obtain rfl := Option.some.inj (next.symm.trans next')
            rw [ahead] at reached
            cases reached
        · refine ⟨Nat.le_trans released ?_, fun expected' next' _ => ?_⟩
          · exact Nat.add_le_add_right (Nat.sub_le _ _) _
          · obtain rfl := Option.some.inj (next.symm.trans next')
            exact released

theorem heldBytes_pushAll_le (b : ReorderBuffer) (chunks : List Chunk) :
    (b.pushAll chunks).heldBytes ≤ totalOf (·.data.length) chunks + b.heldBytes := by
  induction chunks generalizing b with
  | nil => exact Nat.le_add_left _ _
  | cons c rest ih =>
      have first := (b.bytes_push c).1
      have later := ih (b.push c).1
      rw [totalOf_cons]
      show ((b.push c).1.pushAll rest).heldBytes ≤ _
      omega

/-- Giving up a hole brings nothing. -/
theorem bytes_skipGap? {b : ReorderBuffer} {skip : Skip} (h : b.skipGap? = some skip) :
    totalOf (·.data.length) skip.chunks + skip.buffer.heldBytes ≤ b.heldBytes := by
  unfold skipGap? at h
  simp only [Option.bind_eq_bind, Option.bind_eq_some_iff] at h
  obtain ⟨expected, next, nearest, min, ⟨c, others⟩, taken, skipped⟩ := h
  have total : b.heldBytes = c.data.length + totalOf (·.data.length) others :=
    totalOf_perm (perm_of_swapRemove taken)
  have released := bytes_release c c.seq others
  obtain rfl := Option.some.inj skipped
  dsimp only
  omega

end ReorderBuffer

/-! ### Assembling -/

namespace Assembler

section

variable (a : Assembler) (framing : Framing) (probe : LengthProbe)

theorem bytes_drain (frame time : Nat) :
    totalOf (·.data.length) (a.drain framing probe frame time).pdus +
      (a.drain framing probe frame time).assembler.buffer.length ≤ a.buffer.length := by
  fun_induction Assembler.drain a framing probe frame time with
  | case1 a empty => exact Nat.le_of_eq (Nat.zero_add _)
  | case2 a nonempty n front short => exact Nat.le_of_eq (Nat.zero_add _)
  | case3 a nonempty n front whole shorter rest ih =>
      have cut : (a.cut n frame).data.length = min n a.buffer.length := List.length_take
      have left : (a.afterCut n frame).buffer.length = a.buffer.length - n := List.length_drop
      have later : totalOf (·.data.length) rest.pdus + rest.assembler.buffer.length ≤
          (a.afterCut n frame).buffer.length := ih
      rw [totalOf_cons]
      dsimp only
      omega
  | case4 a nonempty entire front => exact Nat.le_of_eq (Nat.zero_add _)
  | case5 a nonempty front => exact Nat.le_of_eq (Nat.zero_add _)
  | case6 a nonempty declared front => exact Nat.zero_le _

theorem bytes_pieces (frame : Nat) (seq : Seq) (bytes : List UInt8) :
    totalOf (·.data.length) (pieces framing probe frame seq bytes) = bytes.length := by
  fun_induction pieces framing probe frame seq bytes with
  | case1 => rfl
  | case2 => rfl
  | case3 seq bytes nonempty n whole shorter ih =>
      have bounds := wholeFront?_bounds whole
      have front : (bytes.take n).length = min n bytes.length := List.length_take
      have left : (bytes.drop n).length = bytes.length - n := List.length_drop
      rw [totalOf_cons, ih]
      dsimp only
      omega

theorem bytes_feed (c : Chunk) :
    totalOf (·.data.length) (a.feed framing probe c).pdus +
      (a.feed framing probe c).assembler.buffer.length ≤ c.data.length + a.buffer.length := by
  by_cases empty : c.data = []
  · rw [feed, if_pos empty, empty]
    exact Nat.le_refl _
  · rcases a.feed_cases framing probe empty with
      ⟨-, fed⟩ | ⟨-, fed | ⟨b, joined, fed⟩⟩
    · rw [fed, bytes_pieces]
    · have buffer := congrArg List.length (a.buffer_start_append c)
      rw [List.length_append] at buffer
      rw [fed]
      exact Nat.le_of_eq ((Nat.zero_add _).trans (buffer.trans (Nat.add_comm _ _)))
    · have drained := b.bytes_drain framing probe c.frame c.timestamp
      rw [joined.buffer, List.length_append] at drained
      rw [fed]
      omega

variable {framing probe} in
/-- Nothing collected is lost, but for an error. -/
theorem data_feed {c : Chunk} (desegment : framing.desegment = true)
    (fine : (a.feed framing probe c).error = none) :
    (a.feed framing probe c).pdus.flatMap (·.data) ++ (a.feed framing probe c).assembler.buffer =
      a.buffer ++ c.data := by
  by_cases empty : c.data = []
  · rw [feed, if_pos empty, empty, List.append_nil]
    rfl
  · rcases a.feed_cases framing probe empty with
      ⟨alone, -⟩ | ⟨-, fed | ⟨b, joined, fed⟩⟩
    · rw [desegment] at alone
      cases alone
    · rw [fed]
      exact a.buffer_start_append c
    · rw [fed] at fine ⊢
      rw [← joined.buffer]
      exact (ends_drain b framing probe c.frame c.timestamp).bytes fine

theorem bytes_feedAll (chunks : List Chunk) :
    totalOf (·.data.length) (a.feedAll framing probe chunks).pdus +
      (a.feedAll framing probe chunks).assembler.buffer.length ≤
        totalOf (·.data.length) chunks + a.buffer.length := by
  induction chunks generalizing a with
  | nil => exact Nat.le_refl _
  | cons c rest ih =>
      have first := a.bytes_feed framing probe c
      have later := ih (a.feed framing probe c).assembler
      rw [feedAll, totalOf_cons]
      dsimp only
      split
      · omega
      · rw [totalOf_append]
        dsimp only
        omega

/-- The end of a direction delivers no more than what was collected. -/
theorem bytes_close (frame : Nat) :
    totalOf (·.data.length) (a.close frame).pdu.toList + (a.close frame).assembler.buffer.length ≤
      a.buffer.length := by
  unfold close
  split
  · have cut : (a.cut a.buffer.length frame).data.length = min a.buffer.length a.buffer.length :=
      List.length_take
    rw [Option.toList_some, totalOf_cons, totalOf_nil, cut, Nat.min_self]
    exact Nat.le_refl _
  · exact Nat.zero_le _

end

end Assembler

/-! ### Handling a segment -/

/-- The bytes a direction has on their way. -/
def Flow.bytes (f : Flow) : Nat := f.reorder.heldBytes + f.assembler.buffer.length

theorem Flow.SamePayload.bytes {f g : Flow} (same : f.SamePayload g) : g.bytes = f.bytes := by
  unfold Flow.bytes
  rw [same.reorder, same.assembler]

namespace Connection

/-- What reordering lets out and keeps is bounded as what its push lets out and keeps. -/
theorem bytes_reorder {f : Flow} {chunk : Chunk} (limit : Nat) {n : Nat}
    (pushed : totalOf (·.data.length) (f.reorder.push chunk).2.released +
      (f.reorder.push chunk).1.heldBytes ≤ n + f.reorder.heldBytes) :
    totalOf (·.data.length) (reorder f chunk limit).2 + (reorder f chunk limit).1.bytes ≤
      n + f.bytes := by
  unfold reorder Flow.bytes
  dsimp only
  split
  · rename_i chunks event
    rw [event] at pushed
    dsimp only [ReorderEvent.released] at pushed ⊢
    omega
  · rename_i event
    rw [event] at pushed
    dsimp only [ReorderEvent.released] at pushed ⊢
    omega
  · rename_i event
    rw [event] at pushed
    dsimp only [ReorderEvent.released] at pushed
    rw [totalOf_nil, Nat.zero_add] at pushed
    split
    · rw [totalOf_nil]
      dsimp only
      omega
    · -- the hole is given up, and with it what was collected
      unfold skipGap
      dsimp only
      split
      · rw [totalOf_nil]
        dsimp only [Assembler.discard]
        rw [List.length_nil]
        omega
      · rename_i skip given
        have := ReorderBuffer.bytes_skipGap? given
        dsimp only [Assembler.discard]
        rw [List.length_nil]
        omega

section

variable (c : Connection) (registry : MetaRegistry) (config : Config) (probe : Option LengthProbe)
  (d : Direction) (s : Segment)

theorem bytes_linked : ((c.linked registry config d s).flow d).bytes = (c.flow d).bytes := by
  have opened : ((c.flow d).opened s).bytes = (c.flow d).bytes := by
    unfold Flow.opened
    split <;> rfl
  exact (c.samePayload_linked registry config d s).1.bytes.trans opened

/-- Dissecting a segment brings what the push of its payload brings. -/
theorem bytes_dissected {n : Nat}
    (pushed : ∀ chunk : Chunk, chunk.data = s.payload →
      chunk.seq = ((c.linked registry config d s).flow d).relative s.seq →
        totalOf (·.data.length)
            (((c.linked registry config d s).flow d).reorder.push chunk).2.released +
          (((c.linked registry config d s).flow d).reorder.push chunk).1.heldBytes ≤
            n + ((c.linked registry config d s).flow d).reorder.heldBytes) :
    totalOf (·.data.length) (c.dissected registry config probe d s).pdus +
      ((c.dissected registry config probe d s).connection.flow d).bytes ≤
        n + (c.flow d).bytes := by
  rw [← c.bytes_linked registry config d s]
  rcases c.dissected_cases registry config probe d s with
    ⟨-, same⟩ | ⟨-, lengthProbe, f, chunks, -, reordered, fed⟩
  · rw [same]
    exact Nat.add_le_add_right (Nat.zero_le n) _
  · have released := bytes_reorder config.maxReorderBytes (pushed (c.arriving config d s) rfl rfl)
    have collected := f.assembler.bytes_feedAll config.framing lengthProbe chunks
    rw [reordered] at released
    rw [fed, flow_setFlow_same]
    unfold Flow.bytes at released ⊢
    dsimp only at released ⊢
    omega

theorem bytes_finished :
    totalOf (·.data.length) (c.finished registry config probe d s).pdus +
      ((c.finished registry config probe d s).connection.flow d).bytes ≤
        ((c.dissected registry config probe d s).connection.flow d).bytes := by
  unfold finished
  split
  · obtain ⟨f, connection, reorder, closing⟩ :=
      (c.dissected registry config probe d s).connection.closeDirection_cases d s.frame probe.isSome
    have closed := ((c.dissected registry config probe d s).connection.flow d).assembler.bytes_close
      s.frame
    rw [connection, flow_setFlow_same, Flow.bytes, Flow.bytes, reorder]
    rcases closing with ⟨-, assembler, pdus⟩ | ⟨-, assembler, pdus⟩
    · rw [assembler, pdus]
      omega
    · rw [assembler, pdus]
      exact Nat.le_of_eq (Nat.zero_add _)
  · exact Nat.le_of_eq (Nat.zero_add _)

theorem bytes_endWith (e : Direction) : ((c.endWith s).1.flow e).bytes ≤ (c.flow e).bytes := by
  unfold endWith
  split
  · exact Nat.le_refl _
  · have nothing : ∀ f : Flow, (abandonFlow f).bytes = 0 := fun _ => rfl
    cases e
    · exact Nat.le_trans (Nat.le_of_eq (nothing _)) (Nat.zero_le _)
    · exact Nat.le_trans (Nat.le_of_eq (nothing _)) (Nat.zero_le _)

/-- Handling a segment brings no more than dissecting it does. -/
theorem bytes_handle_le :
    totalOf (·.data.length) (c.handle registry config probe d s).pdus +
      ((c.handle registry config probe d s).connection.flow d).bytes ≤
        totalOf (·.data.length) (c.dissected registry config probe d s).pdus +
          ((c.dissected registry config probe d s).connection.flow d).bytes := by
  have finished := c.bytes_finished registry config probe d s
  have ended := (c.finished registry config probe d s).connection.bytes_endWith s d
  rw [handle_pdus, totalOf_append, flow, handle_flows]
  unfold flow at ended finished ⊢
  omega

/-- **A segment brings no more than its payload**, whatever it does to the connection. -/
theorem bytes_handle :
    totalOf (·.data.length) (c.handle registry config probe d s).pdus +
      ((c.handle registry config probe d s).connection.flow d).bytes ≤
        s.payload.length + (c.flow d).bytes := by
  refine Nat.le_trans (c.bytes_handle_le registry config probe d s)
    (c.bytes_dissected registry config probe d s fun chunk data _ => ?_)
  rw [← data]
  exact (ReorderBuffer.bytes_push _ chunk).1

end

end Connection

end TcpCapture
