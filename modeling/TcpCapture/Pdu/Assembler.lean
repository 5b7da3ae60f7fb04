import TcpCapture.Error
import TcpCapture.Pdu.Descriptor
import TcpCapture.Pdu.Length

/-!
# Assembling PDUs

The assembler of one direction takes payload in sequence order, cuts it into PDUs as a length probe
says, and keeps what does not make a whole PDU yet.

## Main definitions

* `Assembler` — the collected bytes and what is known of the PDU they begin
* `Chunk` — payload in sequence order
* `Assembler.feed` — takes a chunk and delivers the PDUs it completes
* `Assembler.close`, `Assembler.discard` — end the direction, or give the open PDU up

**Errors do not undo deliveries.**  A length that cannot be framed drops all collected bytes, but
the PDUs cut off before it stand; `Assembler.Outcome` therefore holds deliveries and error side by
side.  Deliveries are counted as they are made; the count is for a caller who sees no error.
-/

namespace TcpCapture

/-- Payload known to follow everything delivered before. -/
structure Chunk where
  seq : Seq
  frame : Nat
  /-- Capture time in nanoseconds. -/
  timestamp : Nat
  data : List UInt8
deriving DecidableEq, Repr

namespace Chunk

/-- Sequence number after the chunk. -/
def endSeq (c : Chunk) : Seq := advance c.seq c.data.length

/-- Drops the bytes before `seq`. -/
def trimTo (c : Chunk) (seq : Seq) : Chunk :=
  { c with seq, data := c.data.drop (seq - c.seq).toNat }

end Chunk

/-- How far the assembler got with the PDU at the front of its bytes. -/
inductive AssemblyState where
  /-- Nothing is collected. -/
  | idle
  /-- The length is not known. -/
  | waiting
  /-- Bytes are collected up to a known position. -/
  | accumulating (nextPdu : Seq)
deriving DecidableEq, Repr

/-- Collects the PDUs of one direction. -/
structure Assembler where
  state : AssemblyState := .idle
  buffer : List UInt8 := []
  /-- Position of the first byte collected. -/
  startSeq : Seq := 0
  /-- Frame the first byte came in. -/
  firstFrame : Nat := 0
  /-- All bytes belong to one PDU that ends with the direction. -/
  untilClose : Bool := false
  descriptors : PduTable := {}
deriving DecidableEq, Repr

namespace Assembler

/-- What feeding led to. -/
structure Outcome where
  assembler : Assembler
  pdus : List Pdu := []
  error : Option CaptureError := none
  /-- Deliveries counted on the way. -/
  delivered : Nat := 0
deriving DecidableEq, Repr

/-- What the collected bytes tell about the PDU at their front. -/
inductive Front where
  /-- It has this many bytes. -/
  | length (n : Nat)
  /-- Its length is not known yet; `entire` asks for the whole next segment. -/
  | unknown (entire : Bool)
  /-- It lasts until the direction ends. -/
  | endless
  /-- Its declared length cannot be framed. -/
  | malformed (declared : Nat)
deriving DecidableEq, Repr

/-- PDUs must be shorter than the sequence space. -/
def maxPduLen : Nat := 0x100000000

/-- The front as a probe sees it: a length counts only if it is positive, covers the fixed header
and fits the sequence space. -/
def Front.ofProbe (framing : Framing) (probe : LengthProbe) (buffer : List UInt8) : Front :=
  if buffer.length < framing.fixedLen then .unknown false
  else
    match probe buffer with
    | .known n =>
      if 0 < n ∧ n < maxPduLen ∧ framing.fixedLen ≤ n then .length n else .malformed n
    | .needMore => .unknown false
    | .oneMoreSegment => .unknown true
    | .untilClose => .endless

/-- The front of the collected bytes.  The probe is not asked again once the length is known. -/
def front (a : Assembler) (framing : Framing) (probe : LengthProbe) : Front :=
  match a.state with
  | .accumulating nextPdu => .length (nextPdu - a.startSeq).toNat
  | .idle | .waiting => .ofProbe framing probe a.buffer

/-- Writes down what is known of the open PDU. -/
def record (a : Assembler) (nextPdu : Option Seq) (frame time : Nat) (flags : BitVec 32) :
    Assembler :=
  { a with descriptors := a.descriptors.insert {
      seq := a.startSeq
      nextPdu
      firstFrame := a.firstFrame
      lastFrame := frame
      lastFrameTime := time
      flags } }

/-- Waits for more bytes before asking for the length again. -/
def wait (a : Assembler) (frame time : Nat) (flags : BitVec 32) : Assembler :=
  { a with state := .waiting }.record none frame time flags

/-- Waits for the rest of a PDU of `n` bytes. -/
def await (a : Assembler) (n frame time : Nat) : Assembler :=
  let nextPdu := advance a.startSeq n
  { a with state := .accumulating nextPdu }.record (some nextPdu) frame time 0

/-- Drops all partial state. -/
def discard (a : Assembler) : Assembler :=
  { a with state := .idle, buffer := [], descriptors := {} }

/-- The PDU of the first `n` bytes. -/
def cut (a : Assembler) (n frame : Nat) : Pdu where
  seq := a.startSeq
  data := a.buffer.take n
  firstFrame := a.firstFrame
  lastFrame := frame
  complete := true

/-- The assembler after the first `n` bytes were delivered. -/
def afterCut (a : Assembler) (n frame : Nat) : Assembler :=
  { a with
    state := .idle
    buffer := a.buffer.drop n
    startSeq := advance a.startSeq n
    firstFrame := frame
    descriptors := a.descriptors.erase a.startSeq }

/-- Bound on the cuts still to come: every cut uses up bytes, or at least the knowledge of a length. -/
def pending (a : Assembler) : Nat := 2 * a.buffer.length + (if a.state = .idle then 0 else 1)

theorem Front.ofProbe_length_pos {framing : Framing} {probe : LengthProbe} {buffer : List UInt8}
    {n : Nat} (h : Front.ofProbe framing probe buffer = .length n) : 0 < n := by
  unfold Front.ofProbe at h
  split at h
  · simp at h
  · split at h
    · split at h
      · rename_i hn
        simp only [Front.length.injEq] at h
        omega
      · simp at h
    all_goals simp at h

theorem pending_afterCut_lt {a : Assembler} {framing : Framing} {probe : LengthProbe} {n frame : Nat}
    (hfront : a.front framing probe = .length n) (hne : a.buffer ≠ []) :
    (a.afterCut n frame).pending < a.pending := by
  have hpos : 0 < a.buffer.length := List.length_pos_iff.2 hne
  simp only [pending, afterCut, List.length_drop]
  cases hs : a.state with
  | accumulating nextPdu =>
    simp only [if_true, reduceCtorEq, if_false]
    omega
  | idle =>
    have := Front.ofProbe_length_pos (by simpa [front, hs] using hfront)
    simp only [if_true]
    omega
  | waiting =>
    have := Front.ofProbe_length_pos (by simpa [front, hs] using hfront)
    simp only [if_true, reduceCtorEq, if_false]
    omega

/-- Delivers PDUs from the front of the collected bytes while they are whole.  `frame` and `time`
are those of the segment that brought the last bytes. -/
def drain (a : Assembler) (framing : Framing) (probe : LengthProbe) (frame time : Nat) : Outcome :=
  if hne : a.buffer = [] then { assembler := { a with state := .idle } }
  else
    match hfront : a.front framing probe with
    | .length n =>
      if a.buffer.length < n then { assembler := a.await n frame time }
      else
        have : (a.afterCut n frame).pending < a.pending := pending_afterCut_lt hfront hne
        let rest := (a.afterCut n frame).drain framing probe frame time
        { rest with pdus := a.cut n frame :: rest.pdus, delivered := rest.delivered + 1 }
    | .unknown entire =>
      { assembler := a.wait frame time (if entire then PduDescriptor.entireSegment else 0) }
    | .endless => { assembler := { a with untilClose := true }.wait frame time 0 }
    | .malformed declared =>
      { assembler := a.discard, error := some (.badPduLength declared framing.fixedLen) }
termination_by a.pending

/-- Length of the PDU at the front of bytes that hold all of it. -/
def wholeFront? (framing : Framing) (probe : LengthProbe) (bytes : List UInt8) : Option Nat :=
  if bytes.length < framing.fixedLen then none
  else
    match probe bytes with
    | .known n => if 0 < n ∧ n ≤ bytes.length then some n else none
    | _ => none

theorem wholeFront?_bounds {framing : Framing} {probe : LengthProbe} {bytes : List UInt8} {n : Nat}
    (h : wholeFront? framing probe bytes = some n) : 0 < n ∧ n ≤ bytes.length := by
  unfold wholeFront? at h
  split at h
  · simp at h
  · split at h
    · split at h
      · rename_i hn
        simp only [Option.some.injEq] at h
        exact h ▸ hn
      · simp at h
    · simp at h

/-- Segments stand alone: whole PDUs are delivered as such, and what is left of the payload as one
incomplete piece.  `seq` is the position of the first of the `bytes`. -/
def pieces (framing : Framing) (probe : LengthProbe) (frame : Nat) (seq : Seq)
    (bytes : List UInt8) : List Pdu :=
  if bytes = [] then []
  else
    match hwhole : wholeFront? framing probe bytes with
    | none => [⟨seq, bytes, frame, frame, false⟩]
    | some n =>
      have : bytes.length - n < bytes.length := by
        have := wholeFront?_bounds hwhole
        omega
      ⟨seq, bytes.take n, frame, frame, true⟩ ::
        pieces framing probe frame (advance seq n) (bytes.drop n)
termination_by bytes.length

/-- Starts a PDU at this chunk unless one is open. -/
def start (a : Assembler) (c : Chunk) : Assembler :=
  if a.state = .idle then { a with startSeq := c.seq, firstFrame := c.frame } else a

/-- Adds a chunk to the collected bytes and to the descriptor that covers its position.  The flag
says whether that descriptor asked for the entire segment. -/
def append (a : Assembler) (c : Chunk) : Assembler × Bool :=
  let a := { a with buffer := a.buffer ++ c.data }
  match a.descriptors.covering? c.seq with
  | none => (a, false)
  | some d =>
    ({ a with descriptors := a.descriptors.insert (d.extend c.frame c.timestamp) },
      d.takesEntireSegment)

/-- Makes everything collected one PDU. -/
def closeAtBuffered (a : Assembler) : Assembler :=
  if a.state ≠ .idle ∧ a.buffer.length < maxPduLen then
    { a with state := .accumulating (advance a.startSeq a.buffer.length) }
  else a

/-- Takes a chunk and delivers the PDUs it completes. -/
def feed (a : Assembler) (framing : Framing) (probe : LengthProbe) (c : Chunk) : Outcome :=
  if c.data = [] then { assembler := a }
  else if !framing.desegment then
    let pdus := pieces framing probe c.frame c.seq c.data
    { assembler := a, pdus, delivered := pdus.length }
  else
    let (b, entire) := (a.start c).append c
    if b.untilClose || framing.untilClose then
      { assembler := { b with untilClose := true }.wait c.frame c.timestamp 0 }
    else
      (if entire then b.closeAtBuffered else b).drain framing probe c.frame c.timestamp

/-- Takes chunks until one leads to an error; the ones after it are dropped. -/
def feedAll (a : Assembler) (framing : Framing) (probe : LengthProbe) : List Chunk → Outcome
  | [] => { assembler := a }
  | c :: rest =>
    let first := a.feed framing probe c
    if first.error.isSome then first
    else
      let later := first.assembler.feedAll framing probe rest
      { later with
        pdus := first.pdus ++ later.pdus
        delivered := first.delivered + later.delivered }

/-- Makes the open PDU take the whole next segment, unless none is open. -/
def requestEntireSegment? (a : Assembler) : Option Assembler :=
  match a.descriptors.covering? a.startSeq with
  | some d =>
    if a.state = .idle then none
    else some { a with descriptors := a.descriptors.insert d.requestEntireSegment }
  | none => none

/-- How many open PDUs `discard` drops. -/
def openPdus (a : Assembler) : Nat := a.descriptors.size

/-- What the end of a direction led to. -/
structure Closing where
  assembler : Assembler
  pdu : Option Pdu := none
  /-- Deliveries counted. -/
  delivered : Nat := 0
  /-- Partial PDUs dropped. -/
  discarded : Nat := 0
deriving DecidableEq, Repr

/-- Ends the direction: bytes collected for that moment are one PDU, any others are dropped. -/
def close (a : Assembler) (lastFrame : Nat) : Closing :=
  if a.untilClose && !a.buffer.isEmpty then
    { assembler := a.discard, pdu := some (a.cut a.buffer.length lastFrame), delivered := 1 }
  else { assembler := a.discard, discarded := a.openPdus }

end Assembler

end TcpCapture
