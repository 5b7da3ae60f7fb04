import TcpCapture.Proofs.Flow.Reordering

/-!
# Parsing a stream

What an assembler makes of a stream that it is given from its front, in pieces of any size.

## Main definitions

* `parse` — the PDUs of a stream: the length probe is asked about all that is left, and as long as a
  whole PDU is there it is cut off the front
* `LeftOver` — what is left of a stream when whole PDUs are cut off
* `Regular` — a probe that answers with a length or asks for more, and does not change its mind
* `Assembler.Waits` — the assembler between two chunks
* `Assembler.Assembling` — the assembler has delivered a stream up to one position and collected it up
  to another

**What feeding keeps.**  The PDUs delivered so far, followed by the parse of what is left, are the parse
of the whole stream.  The assembler never holds a whole PDU back, so when the stream is through there is
nothing left to parse.
-/

namespace TcpCapture

namespace Assembler

/-! ### The parse of a stream -/

/-- The PDUs of some bytes in order, each with the position of its first byte. -/
def parse (framing : Framing) (probe : LengthProbe) (seq : Seq) (bytes : List UInt8) :
    List (Seq × List UInt8) :=
  match hwhole : wholeFront? framing probe bytes with
  | none => []
  | some n =>
    have : bytes.length - n < bytes.length := by
      have := wholeFront?_bounds hwhole
      omega
    (seq, bytes.take n) :: parse framing probe (advance seq n) (bytes.drop n)
termination_by bytes.length

section

variable {framing : Framing} {probe : LengthProbe} {bytes : List UInt8} {n : Nat}

theorem parse_of_none (h : wholeFront? framing probe bytes = none) (seq : Seq) :
    parse framing probe seq bytes = [] := by
  rw [parse]
  split
  · rfl
  · rename_i h'
    rw [h] at h'
    cases h'

theorem parse_of_some (h : wholeFront? framing probe bytes = some n) (seq : Seq) :
    parse framing probe seq bytes =
      (seq, bytes.take n) :: parse framing probe (advance seq n) (bytes.drop n) := by
  rw [parse]
  split
  · rename_i h'
    rw [h] at h'
    cases h'
  · rename_i h'
    rw [h] at h'
    obtain rfl := Option.some.inj h'
    rfl

theorem wholeFront?_eq_some (h : wholeFront? framing probe bytes = some n) :
    framing.fixedLen ≤ bytes.length ∧ probe bytes = .known n := by
  unfold wholeFront? at h
  split at h
  · cases h
  · rename_i long
    split at h
    · rename_i m known
      split at h
      · exact ⟨Nat.not_lt.1 long, Option.some.inj h ▸ known⟩
      · cases h
    · cases h

/-- A known length decides whether the PDU is there as a whole. -/
theorem wholeFront?_of_known (long : framing.fixedLen ≤ bytes.length)
    (known : probe bytes = .known n) (pos : 0 < n) :
    wholeFront? framing probe bytes = if n ≤ bytes.length then some n else none := by
  unfold wholeFront?
  rw [if_neg (Nat.not_lt.2 long), known]
  simp [pos]

end

theorem wholeFront?_nil (framing : Framing) (probe : LengthProbe) :
    wholeFront? framing probe [] = none := by
  cases h : wholeFront? framing probe [] with
  | none => rfl
  | some n =>
      have := wholeFront?_bounds h
      rw [List.length_nil] at this
      omega

/-! ### Probes that keep their word -/

/-- What is left of the stream when some whole PDUs are cut off its front. -/
inductive LeftOver (framing : Framing) (probe : LengthProbe) (stream : List UInt8) :
    List UInt8 → Prop where
  | whole : LeftOver framing probe stream stream
  | cut {rest : List UInt8} {n : Nat} (left : LeftOver framing probe stream rest)
      (front : wholeFront? framing probe rest = some n) :
      LeftOver framing probe stream (rest.drop n)

/-- The probe may be asked about these bytes while `rest` is left: some of them have arrived, and at
least the fixed header. -/
structure Asked (framing : Framing) (rest bytes : List UInt8) : Prop where
  nonempty : bytes ≠ []
  long : framing.fixedLen ≤ bytes.length
  front : bytes <+: rest

/-- Asked about the bytes that have arrived of a stream, the probe asks for more or knows a length that
can be framed; and a length once known stays known as more bytes arrive. -/
structure Regular (framing : Framing) (probe : LengthProbe) (stream : List UInt8) : Prop where
  answers : ∀ rest, LeftOver framing probe stream rest → ∀ bytes, Asked framing rest bytes →
    probe bytes = .needMore ∨
      ∃ n, probe bytes = .known n ∧ 0 < n ∧ n < maxPduLen ∧ framing.fixedLen ≤ n
  stable : ∀ rest, LeftOver framing probe stream rest → ∀ bytes more, Asked framing rest bytes →
    bytes <+: more → more <+: rest → ∀ n, probe bytes = .known n → probe more = .known n

theorem Asked.more {framing : Framing} {rest bytes more : List UInt8}
    (asked : Asked framing rest bytes) (longer : bytes <+: more) (front : more <+: rest) :
    Asked framing rest more where
  nonempty := fun e => asked.nonempty (List.prefix_nil.1 (e ▸ longer))
  long := Nat.le_trans asked.long longer.length_le
  front := front

/-- A known length can be framed. -/
theorem Regular.bounds {framing : Framing} {probe : LengthProbe} {stream rest bytes : List UInt8}
    {n : Nat} (regular : Regular framing probe stream) (left : LeftOver framing probe stream rest)
    (asked : Asked framing rest bytes) (known : probe bytes = .known n) :
    0 < n ∧ n < maxPduLen ∧ framing.fixedLen ≤ n := by
  rcases regular.answers rest left bytes asked with more | ⟨n', known', bounds⟩
  · rw [known] at more
    cases more
  · rw [known] at known'
    cases known'
    exact bounds

/-! ### The assembler between two chunks -/

/-- The assembler has collected the front of `rest`, and a length it goes by was declared by a front of
what it collected. -/
structure Collects (framing : Framing) (probe : LengthProbe) (rest : List UInt8) (a : Assembler) :
    Prop where
  front : a.buffer <+: rest
  declared : ∀ next, a.state = .accumulating next → ∃ n bytes, next = advance a.startSeq n ∧
    Asked framing rest bytes ∧ bytes <+: a.buffer ∧ probe bytes = .known n
  /-- No PDU asks for entire segments. -/
  flags : ∀ d ∈ a.descriptors.entries, d.flags = 0
  untilClose : a.untilClose = false

/-- The assembler has collected the front of `rest`, and that is not a whole PDU. -/
structure Waits (framing : Framing) (probe : LengthProbe) (rest : List UInt8) (a : Assembler) : Prop
    extends Collects framing probe rest a where
  idle : a.state = .idle ↔ a.buffer = []
  blocked : wholeFront? framing probe a.buffer = none

section

variable {framing : Framing} {probe : LengthProbe} {stream rest : List UInt8} {a : Assembler}

/-- What the assembler goes by: the length its bytes declare, or that they declare none. -/
theorem Collects.front_cases (collects : Collects framing probe rest a)
    (regular : Regular framing probe stream) (left : LeftOver framing probe stream rest)
    (nonempty : a.buffer ≠ []) :
    (∃ n, a.front framing probe = .length n ∧ Asked framing rest a.buffer ∧
        probe a.buffer = .known n) ∨
      a.front framing probe = .unknown false ∧ wholeFront? framing probe a.buffer = none := by
  have ofProbe : a.front framing probe = .ofProbe framing probe a.buffer →
      (∃ n, a.front framing probe = .length n ∧ Asked framing rest a.buffer ∧
          probe a.buffer = .known n) ∨
        a.front framing probe = .unknown false ∧ wholeFront? framing probe a.buffer = none := by
    intro front
    rw [front]
    unfold Front.ofProbe wholeFront?
    split
    · exact Or.inr ⟨rfl, rfl⟩
    · rename_i long
      have asked : Asked framing rest a.buffer := ⟨nonempty, Nat.not_lt.1 long, collects.front⟩
      rcases regular.answers rest left a.buffer asked with more | ⟨n, known, bounds⟩
      · rw [more]
        exact Or.inr ⟨rfl, rfl⟩
      · rw [known]
        exact Or.inl ⟨n, if_pos bounds, asked, rfl⟩
  -- a length declared earlier is not asked for again; a stable probe would only repeat it
  cases state : a.state with
  | idle => exact ofProbe (by rw [Assembler.front, state])
  | waiting => exact ofProbe (by rw [Assembler.front, state])
  | accumulating next =>
      obtain ⟨n, bytes, rfl, asked, longer, known⟩ := collects.declared next state
      have bounds := regular.bounds left asked known
      have small : n < 0x100000000 := bounds.2.1
      refine Or.inl ⟨n, ?_, asked.more longer collects.front,
        regular.stable rest left bytes a.buffer asked longer collects.front n known⟩
      rw [Assembler.front, state]
      have : (advance a.startSeq n - a.startSeq).toNat = n :=
        toNat_advance_sub_self a.startSeq (by omega)
      exact congrArg Front.length this

end

/-! ### Descriptors ask for nothing -/

theorem mem_insertSorted {d e : PduDescriptor} {l : List PduDescriptor}
    (mem : e ∈ PduTable.insertSorted d l) : e = d ∨ e ∈ l := by
  induction l with
  | nil => exact Or.inl (List.mem_singleton.1 mem)
  | cons x rest ih =>
      rw [PduTable.insertSorted] at mem
      split at mem
      · exact List.mem_cons.1 mem
      · split at mem
        · exact (List.mem_cons.1 mem).imp_right (List.mem_cons_of_mem x)
        · rcases List.mem_cons.1 mem with rfl | mem
          · exact Or.inr List.mem_cons_self
          · exact (ih mem).imp_right (List.mem_cons_of_mem x)

theorem mem_of_covering? {t : PduTable} {seq : Seq} {d : PduDescriptor}
    (h : t.covering? seq = some d) : d ∈ t.entries :=
  (List.mem_filter.1 (List.mem_of_getLast? (Option.filter_eq_some_iff.1 h).1)).1

theorem flags_record {a : Assembler} (flags : ∀ d ∈ a.descriptors.entries, d.flags = 0)
    (nextPdu : Option Seq) (frame time : Nat) :
    ∀ d ∈ (a.record nextPdu frame time 0).descriptors.entries, d.flags = 0 := by
  intro d mem
  rcases mem_insertSorted mem with rfl | mem
  · rfl
  · exact flags d mem

/-! ### Draining -/

/-- What draining led to: with `rest` left from position `seq` on and its front collected as `buffer`,
PDUs of `n` bytes in all were cut off. -/
structure Drained (framing : Framing) (probe : LengthProbe) (stream rest : List UInt8) (seq : Seq)
    (buffer : List UInt8) (out : Outcome) (n : Nat) : Prop where
  error : out.error = none
  left : LeftOver framing probe stream (rest.drop n)
  waits : Waits framing probe (rest.drop n) out.assembler
  collected : out.assembler.buffer = buffer.drop n
  le : n ≤ buffer.length
  start : out.assembler.buffer ≠ [] → out.assembler.startSeq = advance seq n
  parse : parse framing probe seq rest =
    out.pdus.map (fun pdu => (pdu.seq, pdu.data)) ++ parse framing probe (advance seq n) (rest.drop n)

section

variable {framing : Framing} {probe : LengthProbe} {stream rest : List UInt8} {a : Assembler}
  {seq : Seq} (frame time : Nat)

/-- Nothing is delivered where no whole PDU is there. -/
theorem Drained.of_waits {b : Assembler} (left : LeftOver framing probe stream rest)
    (waits : Waits framing probe rest b) (start : b.buffer ≠ [] → b.startSeq = seq) :
    Drained framing probe stream rest seq b.buffer { assembler := b } 0 where
  error := rfl
  left := left
  waits := waits
  collected := rfl
  le := Nat.zero_le _
  start := fun h => (start h).trans (advance_zero seq).symm
  parse := by rw [advance_zero]; rfl

/-- A whole PDU is delivered before what comes after it. -/
theorem Drained.cut {buffer : List UInt8} {out : Outcome} {n m : Nat} {pdu : Pdu}
    (whole : wholeFront? framing probe rest = some n) (le : n ≤ buffer.length)
    (cut : (pdu.seq, pdu.data) = (seq, rest.take n))
    (h : Drained framing probe stream (rest.drop n) (advance seq n) (buffer.drop n) out m) :
    Drained framing probe stream rest seq buffer
      { out with pdus := pdu :: out.pdus, delivered := out.delivered + 1 } (n + m) where
  error := h.error
  left := List.drop_drop ▸ h.left
  waits := List.drop_drop ▸ h.waits
  collected := h.collected.trans List.drop_drop
  le := by
    have := h.le
    rw [List.length_drop] at this
    omega
  start := fun ne => (h.start ne).trans (advance_advance seq n m)
  parse := by
    rw [parse_of_some whole, h.parse, advance_advance, List.drop_drop, ← cut]
    rfl

theorem Collects.waits_wait (collects : Collects framing probe rest a) (nonempty : a.buffer ≠ [])
    (blocked : wholeFront? framing probe a.buffer = none) :
    Waits framing probe rest (a.wait frame time 0) where
  front := collects.front
  declared := nofun
  flags := flags_record collects.flags none frame time
  untilClose := collects.untilClose
  idle := ⟨nofun, fun h => absurd h nonempty⟩
  blocked := blocked

theorem Collects.waits_await (collects : Collects framing probe rest a) {n : Nat}
    (asked : Asked framing rest a.buffer) (known : probe a.buffer = .known n) (pos : 0 < n)
    (short : a.buffer.length < n) : Waits framing probe rest (a.await n frame time) where
  front := collects.front
  declared := fun _ h =>
    ⟨n, a.buffer, (AssemblyState.accumulating.inj h).symm, asked, List.prefix_refl _, known⟩
  flags := flags_record collects.flags _ frame time
  untilClose := collects.untilClose
  idle := ⟨nofun, fun h => absurd h asked.nonempty⟩
  blocked := (wholeFront?_of_known asked.long known pos).trans (if_neg (Nat.not_le.2 short))

theorem Collects.afterCut (collects : Collects framing probe rest a) (n : Nat) :
    Collects framing probe (rest.drop n) (a.afterCut n frame) where
  front := List.IsPrefix.drop collects.front n
  declared := nofun
  flags := fun d mem => collects.flags d (List.mem_filter.1 mem).1
  untilClose := collects.untilClose

/-- **Draining delivers exactly the whole PDUs at the front of what was collected.** -/
theorem Collects.drain (regular : Regular framing probe stream)
    (left : LeftOver framing probe stream rest) (collects : Collects framing probe rest a)
    (start : a.buffer ≠ [] → a.startSeq = seq) :
    ∃ n, Drained framing probe stream rest seq a.buffer (a.drain framing probe frame time) n := by
  -- the induction is on what is pending, which a PDU cut off makes less
  induction hp : a.pending using Nat.strongRecOn generalizing a rest seq with
  | ind pending ih =>
      rw [Assembler.drain]
      split
      · rename_i empty
        have waits : Waits framing probe rest { a with state := .idle } := {
          front := collects.front
          declared := nofun
          flags := collects.flags
          untilClose := collects.untilClose
          idle := ⟨fun _ => empty, fun _ => rfl⟩
          blocked := empty ▸ wholeFront?_nil framing probe }
        exact ⟨0, .of_waits left waits start⟩
      · rename_i nonempty
        rcases collects.front_cases regular left nonempty with
          ⟨n, front, asked, known⟩ | ⟨front, blocked⟩
        · split
          · rename_i n' front'
            obtain rfl : n = n' := Front.length.inj (front.symm.trans front')
            have bounds := regular.bounds left asked known
            split
            · rename_i short
              exact ⟨0, .of_waits left (collects.waits_await frame time asked known bounds.1 short)
                start⟩
            · rename_i whole
              have whole : n ≤ a.buffer.length := Nat.not_lt.1 whole
              have shorter : (a.afterCut n frame).pending < a.pending :=
                pending_afterCut_lt front nonempty
              -- the length was declared by what has arrived, and all of the rest declares it too
              have front_whole : wholeFront? framing probe rest = some n := by
                have all := asked.more collects.front (List.prefix_refl rest)
                rw [wholeFront?_of_known all.long (regular.stable rest left _ _ asked
                  collects.front (List.prefix_refl rest) n known) bounds.1]
                exact if_pos (Nat.le_trans whole collects.front.length_le)
              have hseq := start nonempty
              obtain ⟨m, drained⟩ := ih _ (hp ▸ shorter) (left.cut front_whole)
                (collects.afterCut frame n) (fun _ => congrArg (advance · n) hseq) rfl
              refine ⟨n + m, Drained.cut front_whole whole ?_ drained⟩
              have taken : a.buffer.take n = rest.take n := by
                obtain ⟨later, split⟩ := collects.front
                rw [← split, List.take_append_of_le_length whole]
              exact Prod.ext hseq taken
          -- the assembler goes by a length here, so the other branches are out of the question
          all_goals
            rename_i front'
            rw [front] at front'
            cases front'
        · split
          case h_2 entire front' =>
            obtain rfl : false = entire := Front.unknown.inj (front.symm.trans front')
            exact ⟨0, .of_waits left (collects.waits_wait frame time nonempty blocked) start⟩
          all_goals
            rename_i front'
            rw [front] at front'
            cases front'

end

/-! ### Feeding -/

/-- The assembler has delivered the stream that starts at `origin` up to position `p`, and collected it
up to position `k`. -/
structure Assembling (framing : Framing) (probe : LengthProbe) (stream : List UInt8) (origin : Seq)
    (a : Assembler) (p k : Nat) : Prop where
  left : LeftOver framing probe stream (stream.drop p)
  waits : Waits framing probe (stream.drop p) a
  position : p + a.buffer.length = k
  start : a.buffer ≠ [] → a.startSeq = advance origin p

/-- What is left to parse when the stream is parsed up to a position. -/
def parseFrom (framing : Framing) (probe : LengthProbe) (stream : List UInt8) (origin : Seq)
    (p : Nat) : List (Seq × List UInt8) :=
  parse framing probe (advance origin p) (stream.drop p)

section

variable {framing : Framing} {probe : LengthProbe} {stream rest : List UInt8} {origin : Seq}
  {a : Assembler} {p k : Nat} {c : Chunk}

theorem Collects.startChunk (collects : Collects framing probe rest a) (c : Chunk) :
    Collects framing probe rest (a.start c) := by
  unfold Assembler.start
  split
  · rename_i idle
    refine { collects with declared := ?_ }
    intro next h
    rw [show a.state = .accumulating next from h] at idle
    cases idle
  · exact collects

/-- What the chunk that follows leaves the assembler with, before anything is delivered. -/
theorem Collects.append (collects : Collects framing probe rest a)
    (follows : c.data <+: rest.drop a.buffer.length) :
    Collects framing probe rest (a.append c).1 ∧ (a.append c).1.buffer = a.buffer ++ c.data ∧
      (a.append c).1.startSeq = a.startSeq ∧ (a.append c).2 = false := by
  have front : a.buffer ++ c.data <+: rest := by
    obtain ⟨later, split⟩ := collects.front
    rw [← split, List.drop_left] at follows
    rw [← split]
    exact (List.prefix_append_right_inj _).2 follows
  have collects' : Collects framing probe rest { a with buffer := a.buffer ++ c.data } := {
    front := front
    declared := by
      intro next h
      obtain ⟨n, bytes, hnext, asked, longer, known⟩ := collects.declared next h
      exact ⟨n, bytes, hnext, asked, longer.trans (List.prefix_append _ _), known⟩
    flags := collects.flags
    untilClose := collects.untilClose }
  unfold Assembler.append
  dsimp only
  cases covering : a.descriptors.covering? c.seq with
  | none => exact ⟨collects', rfl, rfl, rfl⟩
  | some d =>
      have flags : d.flags = 0 := collects.flags d (mem_of_covering? covering)
      refine ⟨{ collects' with flags := ?_ }, rfl, rfl, ?_⟩
      · intro e mem
        rcases mem_insertSorted mem with rfl | mem
        · rw [PduDescriptor.extend, flags]
          exact BitVec.zero_and
        · exact collects.flags e mem
      · show d.takesEntireSegment = false
        rw [PduDescriptor.takesEntireSegment, flags]
        rfl

theorem buffer_start (a : Assembler) (c : Chunk) : (a.start c).buffer = a.buffer := by
  unfold Assembler.start
  split <;> rfl

/-- A chunk that follows what was collected is added to it, and whole PDUs are cut off the front. -/
theorem Assembling.feed_eq_drain (h : Assembling framing probe stream origin a p k)
    (desegment : framing.desegment = true) (bounded : framing.untilClose = false)
    (nonempty : c.data ≠ []) (data : c.data <+: stream.drop k) :
    Collects framing probe (stream.drop p) ((a.start c).append c).1 ∧
      ((a.start c).append c).1.buffer = a.buffer ++ c.data ∧
      ((a.start c).append c).1.startSeq = (a.start c).startSeq ∧
      a.feed framing probe c =
        ((a.start c).append c).1.drain framing probe c.frame c.timestamp := by
  have follows : c.data <+: (stream.drop p).drop (a.start c).buffer.length := by
    rw [List.drop_drop, buffer_start, h.position]
    exact data
  obtain ⟨collects, buffer, start, entire⟩ := (h.waits.toCollects.startChunk c).append follows
  refine ⟨collects, buffer.trans (by rw [buffer_start]), start, ?_⟩
  unfold Assembler.feed
  rw [if_neg nonempty, desegment]
  simp [collects.untilClose, bounded, entire]

/-- Feeding the bytes that come next delivers the PDUs they complete. -/
theorem Assembling.feedNext (h : Assembling framing probe stream origin a p k)
    (regular : Regular framing probe stream) (desegment : framing.desegment = true)
    (bounded : framing.untilClose = false) (nonempty : c.data ≠ [])
    (seq : c.seq = advance origin k) (data : c.data <+: stream.drop k) :
    ∃ p', Assembling framing probe stream origin (a.feed framing probe c).assembler p'
        (k + c.data.length) ∧
      (a.feed framing probe c).error = none ∧
      parseFrom framing probe stream origin p =
        (a.feed framing probe c).pdus.map (fun pdu => (pdu.seq, pdu.data)) ++
          parseFrom framing probe stream origin p' := by
  have hstart : (a.start c).startSeq = advance origin p := by
    unfold Assembler.start
    split
    · rename_i idle
      -- nothing was collected, so the chunk starts where the next PDU does
      have empty : a.buffer = [] := h.waits.idle.1 idle
      have hp : p = k := by simpa [empty] using h.position
      rw [hp]
      exact seq
    · rename_i busy
      exact h.start fun empty => busy (h.waits.idle.2 empty)
  obtain ⟨collects, buffer, start, fed⟩ := h.feed_eq_drain desegment bounded nonempty data
  obtain ⟨n, drained⟩ := collects.drain c.frame c.timestamp regular h.left
    (fun _ => start.trans hstart)
  have length : ((a.start c).append c).1.buffer.length = a.buffer.length + c.data.length := by
    rw [buffer, List.length_append]
  rw [fed]
  refine ⟨p + n, ⟨?_, ?_, ?_, ?_⟩, drained.error, ?_⟩
  · exact List.drop_drop ▸ drained.left
  · exact List.drop_drop ▸ drained.waits
  · have := drained.le
    have := h.position
    rw [drained.collected, List.length_drop]
    omega
  · exact fun ne => (drained.start ne).trans (advance_advance origin p n)
  · have := drained.parse
    rw [advance_advance, List.drop_drop] at this
    exact this

/-- Feeding the chunk that follows delivers the PDUs it completes. -/
theorem Assembling.feed (h : Assembling framing probe stream origin a p k)
    (regular : Regular framing probe stream) (desegment : framing.desegment = true)
    (bounded : framing.untilClose = false) (slice : c.IsSlice stream origin)
    (follows : c.offset origin = k) :
    ∃ p', Assembling framing probe stream origin (a.feed framing probe c).assembler p'
        (k + c.data.length) ∧
      (a.feed framing probe c).error = none ∧
      parseFrom framing probe stream origin p =
        (a.feed framing probe c).pdus.map (fun pdu => (pdu.seq, pdu.data)) ++
          parseFrom framing probe stream origin p' :=
  h.feedNext regular desegment bounded slice.nonempty (follows ▸ c.seq_eq origin)
    (follows ▸ slice.data)

/-- **Feeding chunks that lie end to end delivers the PDUs they complete.** -/
theorem Assembling.feedAll (regular : Regular framing probe stream)
    (desegment : framing.desegment = true) (bounded : framing.untilClose = false)
    {chunks : List Chunk} {k' : Nat} (h : Assembling framing probe stream origin a p k)
    (tiles : Tiles stream origin k chunks k') :
    ∃ p', Assembling framing probe stream origin (a.feedAll framing probe chunks).assembler p' k' ∧
      (a.feedAll framing probe chunks).error = none ∧
      parseFrom framing probe stream origin p =
        (a.feedAll framing probe chunks).pdus.map (fun pdu => (pdu.seq, pdu.data)) ++
          parseFrom framing probe stream origin p' := by
  induction chunks generalizing a p k with
  | nil =>
      obtain rfl : k = k' := tiles
      exact ⟨p, h, rfl, rfl⟩
  | cons c rest ih =>
      obtain ⟨slice, follows, tiles⟩ := tiles
      obtain ⟨p₁, h₁, error, parse₁⟩ := h.feed regular desegment bounded slice follows
      obtain ⟨p₂, h₂, error₂, parse₂⟩ := ih h₁ tiles
      rw [Assembler.feedAll, if_neg (by simp [error])]
      refine ⟨p₂, h₂, error₂, ?_⟩
      rw [parse₁, parse₂, List.map_append, List.append_assoc]

/-- Before anything was fed the whole stream is left to parse. -/
theorem assembling_new (framing : Framing) (probe : LengthProbe) (stream : List UInt8)
    (origin : Seq) : Assembling framing probe stream origin {} 0 0 where
  left := .whole
  waits := {
    front := List.nil_prefix
    declared := nofun
    flags := nofun
    untilClose := rfl
    idle := ⟨fun _ => rfl, fun _ => rfl⟩
    blocked := wholeFront?_nil framing probe }
  position := rfl
  start := fun ne => absurd rfl ne

/-- Once the stream is through there is nothing left to parse. -/
theorem Assembling.parseFrom_eq_nil (h : Assembling framing probe stream origin a p stream.length) :
    parseFrom framing probe stream origin p = [] := by
  have all : a.buffer = stream.drop p := by
    refine h.waits.front.eq_of_length ?_
    have := h.position
    rw [List.length_drop]
    omega
  exact parse_of_none (all ▸ h.waits.blocked) _

end

end Assembler

/-! ### Length fields -/

namespace BigEndian

theorem ofBytes_lt (bytes : List UInt8) : ofBytes bytes < capacity bytes.length := by
  induction bytes using List.reverseRecOn with
  | nil => exact Nat.one_pos
  | append_singleton bytes b ih =>
      have := b.toNat_lt
      rw [ofBytes_append_singleton, List.length_append, List.length_singleton, capacity]
      omega

end BigEndian

namespace LengthField

theorem read_eq (f : LengthField) (header : List UInt8) :
    f.read ⟨header⟩ =
      if f.fixedLen ≤ header.length then
        some (BigEndian.ofBytes ((header.drop f.offset).take f.width.bytes),
          ⟨(header.drop f.offset).drop f.width.bytes⟩)
      else none := by
  change ((Read.bytes f.offset ⟨header⟩).bind fun p => some ((), p.2)).bind
    (fun p => (Read.bytes f.width.bytes p.2).bind fun q => some (BigEndian.ofBytes q.1, q.2)) = _
  unfold Read.bytes Cursor.remaining fixedLen
  by_cases offset : f.offset ≤ header.length
  · rw [if_pos offset]
    dsimp only [Option.bind_some]
    rw [List.length_drop]
    by_cases width : f.width.bytes ≤ header.length - f.offset
    · rw [if_pos width, if_pos (by omega)]
      rfl
    · rw [if_neg width, if_neg (by omega)]
      rfl
  · rw [if_neg offset, if_neg (by omega)]
    rfl

/-- A length field is read as soon as it is there, and only from its own bytes. -/
theorem probe_eq (f : LengthField) (header : List UInt8) :
    f.probe header =
      if f.fixedLen ≤ header.length then
        .known (min (BigEndian.ofBytes ((header.drop f.offset).take f.width.bytes) + f.headerLen)
          maxTotal)
      else .needMore := by
  rw [probe, Read.value?, read_eq]
  by_cases long : f.fixedLen ≤ header.length
  · rw [if_pos long, if_pos long]
    rfl
  · rw [if_neg long, if_neg long]
    rfl

/-- Length fields are regular probes of any stream when every total they can declare can be framed. -/
theorem regular (f : LengthField) {framing : Framing} (pos : 0 < f.headerLen)
    (covers : framing.fixedLen ≤ f.headerLen)
    (fits : BigEndian.capacity f.width.bytes + f.headerLen ≤ Assembler.maxPduLen)
    (stream : List UInt8) : Assembler.Regular framing f.probe stream where
  answers rest _ bytes _ := by
    rw [probe_eq]
    split
    · rename_i long
      refine Or.inr ⟨_, rfl, ?_⟩
      have value := BigEndian.ofBytes_lt ((bytes.drop f.offset).take f.width.bytes)
      rw [List.length_take_of_le (by rw [List.length_drop]; unfold fixedLen at long; omega)] at value
      unfold Assembler.maxPduLen at fits ⊢
      unfold maxTotal
      omega
    · exact Or.inl rfl
  stable rest _ bytes more _ longer _ n known := by
    rw [probe_eq] at known ⊢
    split at known
    · rename_i long
      obtain ⟨later, rfl⟩ := longer
      have inside : f.offset ≤ bytes.length := by
        unfold fixedLen at long
        omega
      rw [if_pos (by rw [List.length_append]; omega), List.drop_append_of_le_length inside,
        List.take_append_of_le_length (by rw [List.length_drop]; unfold fixedLen at long; omega)]
      exact known
    · cases known

end LengthField

end TcpCapture
