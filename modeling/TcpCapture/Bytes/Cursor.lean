import TcpCapture.Bytes.BigEndian

/-!
# Reading bytes

A cursor is what is left to read.  A `Read α` either yields a value and the cursor behind it or
fails.  Failing consumes nothing: `optional read` goes on from where it stood.

## Main definitions

* `Cursor` — the unread bytes
* `Read` — a computation that consumes bytes
* `Read.bytes`, `Read.uint`, `Read.byte`, `Read.skip` — the reads of a fixed number of bytes
* `Read.value?` — the value of a read over a whole field
-/

namespace TcpCapture

/-- The bytes not read yet. -/
structure Cursor where
  rest : List UInt8
deriving DecidableEq, Repr

namespace Cursor

/-- A cursor at `position` in `data`, unless that lies past the end. -/
def at? (data : List UInt8) (position : Nat) : Option Cursor :=
  if position ≤ data.length then some ⟨data.drop position⟩ else none

/-- How many bytes are left. -/
def remaining (c : Cursor) : Nat := c.rest.length

/-- The byte `offset` positions ahead, without consuming it. -/
def peek? (c : Cursor) (offset : Nat) : Option UInt8 := c.rest[offset]?

end Cursor

/-- A computation that consumes bytes and may fail. -/
abbrev Read := StateT Cursor Option

namespace Read

/-- Reads exactly `n` bytes. -/
def bytes (n : Nat) : Read (List UInt8) := fun c =>
  if n ≤ c.remaining then some (c.rest.take n, ⟨c.rest.drop n⟩) else none

/-- Passes over `n` bytes. -/
def skip (n : Nat) : Read Unit := do
  let _ ← bytes n

/-- Reads a big-endian number of `n` bytes. -/
def uint (n : Nat) : Read Nat := do
  return BigEndian.ofBytes (← bytes n)

/-- Reads one byte. -/
def byte : Read UInt8 := fun c =>
  match c.rest with
  | [] => none
  | b :: rest => some (b, ⟨rest⟩)

/-- Reads everything that is left. -/
def all : Read (List UInt8) := fun c => some (c.rest, ⟨[]⟩)

/-- Runs a read over a whole field and keeps its value. -/
def value? {α : Type} (read : Read α) (field : List UInt8) : Option α :=
  (read ⟨field⟩).map Prod.fst

/-! ### Equations -/

theorem bytes_append (field rest : List UInt8) :
    bytes field.length ⟨field ++ rest⟩ = some (field, ⟨rest⟩) := by
  simp [bytes, Cursor.remaining]

/-- A number written in `n` bytes is read back from the front of any input. -/
theorem uint_toBytes_append (n value : Nat) (rest : List UInt8) :
    uint n ⟨BigEndian.toBytes n value ++ rest⟩ = some (value % BigEndian.capacity n, ⟨rest⟩) := by
  have h := bytes_append (BigEndian.toBytes n value) rest
  rw [BigEndian.length_toBytes] at h
  change (bytes n _).bind (fun p => some (BigEndian.ofBytes p.1, p.2)) = _
  rw [h, Option.bind_some, BigEndian.ofBytes_toBytes]

/-- A read tried in vain leaves the cursor where it was. -/
theorem optional_eq_some {α : Type} (read : Read α) (c : Cursor) :
    (optional read) c = some (match read c with
      | none => (none, c)
      | some (a, c') => (some a, c')) := by
  simp only [optional, Functor.map, StateT.map, HOrElse.hOrElse, OrElse.orElse,
    Alternative.orElse, StateT.orElse, bind, Option.bind]
  cases read c <;> rfl

theorem bytes_eq_none_iff (n : Nat) (c : Cursor) : bytes n c = none ↔ c.remaining < n := by
  unfold bytes
  split <;> simp <;> omega

end Read

end TcpCapture
