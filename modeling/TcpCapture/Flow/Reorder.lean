import TcpCapture.Pdu.Assembler
import TcpCapture.Total

/-!
# Reordering

Chunks that arrive ahead of a hole are held back until the hole is filled or given up; bytes come
out strictly in sequence order, and none twice.

## Main definitions

* `ReorderBuffer` — the next position to come out, and the chunks held back
* `push` — takes a chunk; `ReorderEvent` says what became of it
* `skipGap` — gives the earliest hole up

**Order of the held chunks.**  A chunk is taken out from the middle by moving the last one into its
place.  The order shows when several held chunks overlap: the first one in that order comes out whole
and the others are trimmed.
-/

namespace TcpCapture

/-- What became of a chunk. -/
inductive ReorderEvent where
  /-- It came out, with the held chunks it reached. -/
  | inOrder (chunks : List Chunk)
  /-- It lies behind a hole. -/
  | gap (expected got : Seq)
  /-- All of it came out before. -/
  | duplicate (seq : Seq)
deriving DecidableEq, Repr

/-- Takes the first element with a property out of a list; the last element moves into its place. -/
def swapRemove {α : Type} (p : α → Bool) : List α → Option (α × List α)
  | [] => none
  | x :: rest =>
    if p x then some (x, match rest.getLast? with
      | none => []
      | some last => last :: rest.dropLast)
    else (swapRemove p rest).map fun (found, others) => (found, x :: others)

theorem length_of_swapRemove {α : Type} {p : α → Bool} {xs others : List α} {x : α}
    (h : swapRemove p xs = some (x, others)) : others.length + 1 = xs.length := by
  induction xs generalizing others with
  | nil => simp [swapRemove] at h
  | cons y rest ih =>
    simp only [swapRemove] at h
    split at h
    · simp only [Option.some.injEq, Prod.mk.injEq] at h
      rw [← h.2]
      cases hl : rest.getLast? with
      | none => simp [List.getLast?_eq_none_iff.1 hl]
      | some last =>
        have : 0 < rest.length := List.length_pos_iff.2 (by rintro rfl; simp at hl)
        simp; omega
    · obtain ⟨⟨x', others'⟩, h', he⟩ := Option.map_eq_some_iff.1 h
      simp only [Prod.mk.injEq] at he
      have := ih (he.1 ▸ h')
      rw [← he.2]
      simp only [List.length_cons]
      omega

theorem mem_of_swapRemove {α : Type} {p : α → Bool} {xs others : List α} {x : α}
    (h : swapRemove p xs = some (x, others)) : x ∈ xs ∧ p x = true := by
  induction xs generalizing others with
  | nil => simp [swapRemove] at h
  | cons y rest ih =>
    simp only [swapRemove] at h
    split at h
    · rename_i hp
      simp only [Option.some.injEq, Prod.mk.injEq] at h
      exact ⟨by simp [h.1], h.1 ▸ hp⟩
    · obtain ⟨⟨x', others'⟩, h', he⟩ := Option.map_eq_some_iff.1 h
      simp only [Prod.mk.injEq] at he
      have := ih (he.1 ▸ h')
      exact ⟨by simp [this.1], this.2⟩

/-- Chunks held back in one direction. -/
structure ReorderBuffer where
  /-- The position to come out next, once the direction has an anchor. -/
  nextSeq : Option Seq := none
  held : List Chunk := []
deriving DecidableEq, Repr

namespace ReorderBuffer

/-- Anchors the direction, unless it has an anchor. -/
def sync (b : ReorderBuffer) (seq : Seq) : ReorderBuffer :=
  { b with nextSeq := b.nextSeq.or (some seq) }

/-- Bytes held back. -/
def heldBytes (b : ReorderBuffer) : Nat := totalOf (·.data.length) b.held

/-- Drops the held chunks; the position stays. -/
def clear (b : ReorderBuffer) : ReorderBuffer := { b with held := [] }

/-- Takes out the held chunks that reach `next`, each trimmed to what is new in it.  The result
holds them in order, the position after them, and the chunks that stay. -/
def collect (next : Seq) (held : List Chunk) : List Chunk × ReorderBuffer :=
  match h : swapRemove (fun c => atOrBefore c.seq next) held with
  | none => ([], ⟨some next, held⟩)
  | some (c, others) =>
    have : others.length < held.length := by have := length_of_swapRemove h; omega
    if atOrBefore c.endSeq next then collect next others
    else
      let (chunks, b) := collect c.endSeq others
      (c.trimTo next :: chunks, b)
termination_by held.length

/-- Lets a chunk out from position `seq` on, and the held chunks it reaches. -/
def release (c : Chunk) (seq : Seq) (held : List Chunk) : List Chunk × ReorderBuffer :=
  let (chunks, b) := collect (c.trimTo seq).endSeq held
  (c.trimTo seq :: chunks, b)

/-- A held chunk starts at the same position and is no shorter. -/
def holds (b : ReorderBuffer) (c : Chunk) : Bool :=
  b.held.any fun d => d.seq == c.seq && decide (c.data.length ≤ d.data.length)

/-- Takes a chunk. -/
def push (b : ReorderBuffer) (c : Chunk) : ReorderBuffer × ReorderEvent :=
  if c.data = [] then (b, .inOrder [])
  else
    match b.nextSeq with
    | none => ({ b with nextSeq := some c.endSeq }, .inOrder [c])
    | some expected =>
      if atOrBefore c.endSeq expected then (b, .duplicate c.seq)
      else if after c.seq expected then
        (if b.holds c then b else { b with held := b.held ++ [c] }, .gap expected c.seq)
      else
        let (chunks, b) := release c expected b.held
        (b, .inOrder chunks)

/-- What giving up a hole led to. -/
structure Skip where
  buffer : ReorderBuffer
  /-- Sequence numbers given up. -/
  skipped : Nat
  chunks : List Chunk
deriving DecidableEq, Repr

/-- Gives up the hole in front of the held chunk nearest to the next position, if there is one, and
lets that chunk out. -/
def skipGap? (b : ReorderBuffer) : Option Skip := do
  let expected ← b.nextSeq
  let distance (c : Chunk) : Nat := (c.seq - expected).toNat
  let nearest ← (b.held.map distance).min?
  let (c, others) ← swapRemove (fun c => distance c == nearest) b.held
  let (chunks, buffer) := release c c.seq others
  return { buffer, skipped := nearest, chunks }

end ReorderBuffer

end TcpCapture
