import TcpCapture.Proofs.Pdu.Parse

/-!
# Segmentation

A stream may be cut into segments anywhere.  The PDUs an assembler delivers are those of the stream in
every case; the segments only show in the frames a PDU names, the one that carried its first byte and
the one that carried its last.

## Main definitions

* `Consecutive`, `carrier` — chunks that follow one another, and the frame that carried a byte
* `framed` — the PDUs of a parse, with the frames that carried their ends
* `Assembler.Prompt` — a probe that knows the length of a PDU before its last byte is there
* `Assembler.feeds`, `Assembler.feedEach` — what each of some chunks led to, and the assembler after them
* `Assembler.Carried` — the assembler between two chunks, with the frame of the open PDU

**Frames follow positions.**  One chunk cuts off any number of PDUs.  All of them end in the chunk, for
what was collected before it held no whole PDU; all but the first one begin in it as well.
-/

namespace TcpCapture

/-- The chunks follow one another without a gap, the first one at `seq`, and none is empty. -/
def Consecutive (seq : Seq) : List Chunk → Prop
  | [] => True
  | c :: rest => c.data ≠ [] ∧ c.seq = seq ∧ Consecutive c.endSeq rest

/-- One more chunk follows where the bytes of those before it end. -/
theorem consecutive_concat {seq : Seq} {chunks : List Chunk} {c : Chunk} :
    Consecutive seq (chunks ++ [c]) ↔ Consecutive seq chunks ∧ c.data ≠ [] ∧
      c.seq = advance seq (chunks.flatMap (·.data)).length := by
  induction chunks generalizing seq with
  | nil =>
      show c.data ≠ [] ∧ c.seq = seq ∧ True ↔ True ∧ c.data ≠ [] ∧ c.seq = advance seq 0
      rw [and_true, true_and, advance_zero]
  | cons d rest ih =>
      rw [List.cons_append, Consecutive, Consecutive, ih, Chunk.endSeq, advance_advance,
        List.flatMap_cons, List.length_append]
      constructor
      · rintro ⟨nonempty, rfl, rest, last⟩
        exact ⟨⟨nonempty, rfl, rest⟩, last⟩
      · rintro ⟨⟨nonempty, rfl, rest⟩, last⟩
        exact ⟨nonempty, rfl, rest, last⟩

/-- Frame of the chunk that carries a byte; bytes are counted from the start of the first chunk. -/
def carrier : List Chunk → Nat → Nat
  | [], _ => 0
  | c :: rest, position =>
    if position < c.data.length then c.frame else carrier rest (position - c.data.length)

/-! ### PDUs and the frames of their ends -/

/-- The PDUs of a parse that starts at a position, complete, each with the frames that carried its first
and its last byte. -/
def framed (frameAt : Nat → Nat) (position : Nat) : List (Seq × List UInt8) → List Pdu
  | [] => []
  | (seq, data) :: rest =>
    ⟨seq, data, frameAt position, frameAt (position + data.length - 1), true⟩ ::
      framed frameAt (position + data.length) rest

theorem framed_append (frameAt : Nat → Nat) (position : Nat) (l l' : List (Seq × List UInt8)) :
    framed frameAt position (l ++ l') =
      framed frameAt position l ++ framed frameAt (position + totalOf (·.2.length) l) l' := by
  induction l generalizing position with
  | nil => rfl
  | cons x rest ih =>
      rw [List.cons_append, framed, ih, framed, totalOf_cons, ← Nat.add_assoc]
      rfl

theorem length_framed (frameAt : Nat → Nat) (position : Nat) (l : List (Seq × List UInt8)) :
    (framed frameAt position l).length = l.length := by
  induction l generalizing position with
  | nil => rfl
  | cons x rest ih => exact congrArg (· + 1) (ih _)

theorem totalOf_framed (frameAt : Nat → Nat) (position : Nat) (l : List (Seq × List UInt8)) :
    totalOf (·.data.length) (framed frameAt position l) = totalOf (·.2.length) l := by
  induction l generalizing position with
  | nil => rfl
  | cons x rest ih => exact congrArg (x.2.length + ·) (ih _)

section

variable {frameAt : Nat → Nat} {frame k stop : Nat} {pdus : List Pdu}

/-- PDUs that lie in one chunk name its frame twice. -/
theorem framed_within {p : Nat}
    (own : ∀ x, k ≤ x → x < stop → frameAt x = frame) (inside : k ≤ p)
    (fits : p + totalOf (·.data.length) pdus ≤ stop)
    (nonempty : ∀ pdu ∈ pdus, pdu.data ≠ [])
    (last : ∀ pdu ∈ pdus, pdu.lastFrame = frame ∧ pdu.complete = true)
    (first : ∀ pdu ∈ pdus, pdu.firstFrame = frame) :
    framed frameAt p (pdus.map fun pdu => (pdu.seq, pdu.data)) = pdus := by
  induction pdus generalizing p with
  | nil => rfl
  | cons pdu rest ih =>
      have pos := List.length_pos_iff.2 (nonempty pdu List.mem_cons_self)
      rw [totalOf_cons] at fits
      have later := ih (p := p + pdu.data.length) (by omega) (by omega)
        (fun x mem => nonempty x (List.mem_cons_of_mem pdu mem))
        (fun x mem => last x (List.mem_cons_of_mem pdu mem))
        (fun x mem => first x (List.mem_cons_of_mem pdu mem))
      obtain ⟨hlast, hcomplete⟩ := last pdu List.mem_cons_self
      rw [List.map_cons, framed, later, own _ inside (by omega), own _ (by omega) (by omega)]
      refine congrArg (· :: rest) ?_
      exact Pdu.mk.injEq .. ▸ ⟨rfl, rfl, (first pdu List.mem_cons_self).symm, hlast.symm,
        hcomplete.symm⟩

/-- PDUs that all end in one chunk name its frame last, and all but the first one name it first. -/
theorem framed_chunk {p : Nat}
    (own : ∀ x, k ≤ x → x < stop → frameAt x = frame)
    (reaches : ∀ pdu ∈ pdus.head?, k < p + pdu.data.length)
    (fits : p + totalOf (·.data.length) pdus ≤ stop)
    (nonempty : ∀ pdu ∈ pdus, pdu.data ≠ [])
    (last : ∀ pdu ∈ pdus, pdu.lastFrame = frame ∧ pdu.complete = true)
    (head : ∀ pdu ∈ pdus.head?, pdu.firstFrame = frameAt p)
    (tail : ∀ pdu ∈ pdus.tail, pdu.firstFrame = frame) :
    framed frameAt p (pdus.map fun pdu => (pdu.seq, pdu.data)) = pdus := by
  cases pdus with
  | nil => rfl
  | cons pdu rest =>
      have reaches : k < p + pdu.data.length := reaches pdu rfl
      have head : pdu.firstFrame = frameAt p := head pdu rfl
      obtain ⟨hlast, hcomplete⟩ := last pdu List.mem_cons_self
      rw [totalOf_cons] at fits
      have later := framed_within (p := p + pdu.data.length) own (by omega) (by omega)
        (fun x mem => nonempty x (List.mem_cons_of_mem pdu mem))
        (fun x mem => last x (List.mem_cons_of_mem pdu mem)) tail
      rw [List.map_cons, framed, later, own (p + pdu.data.length - 1) (by omega) (by omega)]
      refine congrArg (· :: rest) ?_
      exact Pdu.mk.injEq .. ▸ ⟨rfl, rfl, head.symm, hlast.symm, hcomplete.symm⟩

end

namespace Assembler

/-! ### Draining -/

/-- What draining led to, as far as frames go: all PDUs end in `frame`, and all but the first one, which
is the PDU that was open, begin in it. -/
structure Ends (frame first : Nat) (buffer : List UInt8) (out : Outcome) : Prop where
  last : ∀ pdu ∈ out.pdus, pdu.lastFrame = frame ∧ pdu.complete = true
  head : ∀ pdu ∈ out.pdus.head?, pdu.firstFrame = first
  tail : ∀ pdu ∈ out.pdus.tail, pdu.firstFrame = frame
  /-- The frame noted for the bytes that stay. -/
  rest : out.assembler.firstFrame = if out.pdus = [] then first else frame
  /-- Nothing is lost, but for an error. -/
  bytes : out.error = none → out.pdus.flatMap (·.data) ++ out.assembler.buffer = buffer

theorem ends_drain (a : Assembler) (framing : Framing) (probe : LengthProbe) (frame time : Nat) :
    Ends frame a.firstFrame a.buffer (a.drain framing probe frame time) := by
  fun_induction Assembler.drain a framing probe frame time with
  | case1 a empty => exact ⟨nofun, nofun, nofun, rfl, fun _ => rfl⟩
  | case2 a nonempty n front short => exact ⟨nofun, nofun, nofun, rfl, fun _ => rfl⟩
  | case3 a nonempty n front whole shorter rest ih =>
      have later : ∀ pdu ∈ rest.pdus, pdu.firstFrame = frame := by
        intro pdu mem
        cases hrest : rest.pdus with
        | nil => simp [hrest] at mem
        | cons x l =>
            rw [hrest] at mem
            rcases List.mem_cons.1 mem with rfl | mem
            · exact ih.head pdu (by rw [hrest]; rfl)
            · exact ih.tail pdu (by rw [hrest]; exact mem)
      refine ⟨?_, ?_, later, ?_, ?_⟩
      · intro pdu mem
        rcases List.mem_cons.1 mem with rfl | mem
        · exact ⟨rfl, rfl⟩
        · exact ih.last pdu mem
      · rintro _ ⟨⟩
        rfl
      · rw [if_neg (List.cons_ne_nil _ _)]
        exact ih.rest.trans (ite_self _)
      · intro none
        have := ih.bytes none
        rw [List.flatMap_cons, List.append_assoc, this]
        exact List.take_append_drop n a.buffer
  | case4 a nonempty entire front => exact ⟨nofun, nofun, nofun, rfl, fun _ => rfl⟩
  | case5 a nonempty front => exact ⟨nofun, nofun, nofun, rfl, fun _ => rfl⟩
  | case6 a nonempty declared front => exact ⟨nofun, nofun, nofun, rfl, nofun⟩

/-! ### Deliveries are counted -/

section

variable (a : Assembler) (framing : Framing) (probe : LengthProbe)

/-- **Draining counts what it delivers.** -/
theorem delivered_drain (frame time : Nat) :
    (a.drain framing probe frame time).delivered =
      (a.drain framing probe frame time).pdus.length := by
  fun_induction Assembler.drain a framing probe frame time with
  | case3 a nonempty n front whole shorter rest ih => exact congrArg (· + 1) ih
  | _ => rfl

theorem delivered_feed (c : Chunk) :
    (a.feed framing probe c).delivered = (a.feed framing probe c).pdus.length := by
  unfold feed
  split
  · rfl
  · split
    · rfl
    · dsimp only
      split
      · rfl
      · exact delivered_drain ..

theorem delivered_feedAll (chunks : List Chunk) :
    (a.feedAll framing probe chunks).delivered = (a.feedAll framing probe chunks).pdus.length := by
  induction chunks generalizing a with
  | nil => rfl
  | cons c rest ih =>
      rw [feedAll]
      dsimp only
      split
      · exact a.delivered_feed framing probe c
      · rw [List.length_append, ← ih, ← delivered_feed]

theorem delivered_close (lastFrame : Nat) :
    (a.close lastFrame).delivered = (a.close lastFrame).pdu.toList.length := by
  unfold close
  split <;> rfl

end

/-! ### Prompt probes -/

/-- A regular probe that knows the length of a PDU before its last byte is there: as long as it asks
for more, the PDU is longer than what has arrived. -/
structure Prompt (framing : Framing) (probe : LengthProbe) (stream : List UInt8) : Prop
    extends Regular framing probe stream where
  prompt : ∀ rest, LeftOver framing probe stream rest → ∀ bytes more, Asked framing rest bytes →
    bytes <+: more → more <+: rest → probe bytes = .needMore →
      ∀ n, probe more = .known n → bytes.length < n

section

variable {framing : Framing} {probe : LengthProbe} {stream rest : List UInt8} {origin : Seq}
  {a : Assembler} {p k n : Nat}

/-- An assembler that waits has not collected the PDU at the front of its stream. -/
theorem Waits.length_lt (waits : Waits framing probe rest a) (prompt : Prompt framing probe stream)
    (left : LeftOver framing probe stream rest) (whole : wholeFront? framing probe rest = some n) :
    a.buffer.length < n := by
  obtain ⟨pos, le⟩ := wholeFront?_bounds whole
  obtain ⟨long, known⟩ := wholeFront?_eq_some whole
  refine Nat.not_le.1 fun collected => ?_
  have asked : Asked framing rest rest :=
    ⟨List.length_pos_iff.1 (Nat.lt_of_lt_of_le pos le), long, List.prefix_refl rest⟩
  have header := (prompt.bounds left asked known).2.2
  have asked : Asked framing rest a.buffer :=
    ⟨List.length_pos_iff.1 (Nat.lt_of_lt_of_le pos collected), Nat.le_trans header collected,
      waits.front⟩
  rcases prompt.answers rest left a.buffer asked with more | ⟨m, early, -⟩
  · have := prompt.prompt rest left _ _ asked waits.front (List.prefix_refl rest) more n known
    omega
  · -- the length was known already, so the PDU would have been cut off
    have same := prompt.stable rest left _ _ asked waits.front (List.prefix_refl rest) m early
    obtain rfl : n = m := PduLength.known.inj (known.symm.trans same)
    have blocked := waits.blocked
    rw [wholeFront?_of_known asked.long early pos, if_pos collected] at blocked
    cases blocked

theorem parse_nonempty {seq : Seq} : ∀ x ∈ parse framing probe seq rest, x.2 ≠ [] := by
  fun_induction parse framing probe seq rest with
  | case1 => nofun
  | case2 seq bytes n whole shorter ih =>
      have bounds := wholeFront?_bounds whole
      intro x mem
      rcases List.mem_cons.1 mem with rfl | mem
      · intro empty
        have := congrArg List.length empty
        rw [List.length_take, List.length_nil] at this
        omega
      · exact ih x mem

/-- The first PDU of a parse is the whole one at the front. -/
theorem wholeFront?_of_parse_cons {seq : Seq} {x : Seq × List UInt8} {l : List (Seq × List UInt8)}
    (h : parse framing probe seq rest = x :: l) :
    wholeFront? framing probe rest = some x.2.length := by
  cases whole : wholeFront? framing probe rest with
  | none =>
      rw [parse_of_none whole] at h
      cases h
  | some n =>
      rw [parse_of_some whole] at h
      obtain ⟨rfl, -⟩ := List.cons.inj h
      rw [List.length_take, Nat.min_eq_left (wholeFront?_bounds whole).2]

end

/-! ### Feeding one chunk after another -/

/-- What each of some chunks led to. -/
def feeds (a : Assembler) (framing : Framing) (probe : LengthProbe) : List Chunk → List Outcome
  | [] => []
  | c :: rest =>
    a.feed framing probe c :: (a.feed framing probe c).assembler.feeds framing probe rest

theorem totalOf_delivered_feeds (a : Assembler) (framing : Framing) (probe : LengthProbe)
    (chunks : List Chunk) : totalOf (·.delivered) (a.feeds framing probe chunks) =
      ((a.feeds framing probe chunks).flatMap (·.pdus)).length := by
  induction chunks generalizing a with
  | nil => rfl
  | cons c rest ih =>
      rw [feeds, totalOf_cons, ih, delivered_feed, List.flatMap_cons, List.length_append]

/-- The assembler after some chunks. -/
def feedEach (a : Assembler) (framing : Framing) (probe : LengthProbe) (chunks : List Chunk) :
    Assembler :=
  chunks.foldl (fun a c => (a.feed framing probe c).assembler) a

/-- The assembler has delivered the stream up to position `p` and collected it up to position `k`, and
notes the frame that carried the first byte collected. -/
structure Carried (framing : Framing) (probe : LengthProbe) (stream : List UInt8) (origin : Seq)
    (frameAt : Nat → Nat) (a : Assembler) (p k : Nat) : Prop
    extends Assembling framing probe stream origin a p k where
  opened : a.buffer ≠ [] → a.firstFrame = frameAt p

section

variable {framing : Framing} {probe : LengthProbe} {stream : List UInt8} {origin : Seq}
  {frameAt : Nat → Nat} {a : Assembler} {p k : Nat} {c : Chunk} {chunks : List Chunk}

/-- The PDUs of a stream from a position on, with the frames of their ends. -/
def pdusFrom (framing : Framing) (probe : LengthProbe) (stream : List UInt8) (origin : Seq)
    (frameAt : Nat → Nat) (p : Nat) : List Pdu :=
  framed frameAt p (parseFrom framing probe stream origin p)

/-- A chunk that starts a PDU notes its frame. -/
theorem Carried.firstFrame_start (h : Carried framing probe stream origin frameAt a p k)
    (own : frameAt k = c.frame) : (a.start c).firstFrame = frameAt p := by
  unfold Assembler.start
  split
  · rename_i idle
    have empty : a.buffer = [] := h.waits.idle.1 idle
    obtain rfl : p = k := by simpa [empty] using h.position
    exact own.symm
  · rename_i busy
    exact h.opened fun empty => busy (h.waits.idle.2 empty)

theorem firstFrame_append (a : Assembler) (c : Chunk) :
    (a.append c).1.firstFrame = a.firstFrame := by
  unfold Assembler.append
  dsimp only
  split <;> rfl

section

variable {pdus : List Pdu} {later : List (Seq × List UInt8)}
  (parsed : parseFrom framing probe stream origin p =
    pdus.map (fun pdu => (pdu.seq, pdu.data)) ++ later)

include parsed

theorem nonempty_of_parseFrom : ∀ pdu ∈ pdus, pdu.data ≠ [] := by
  intro pdu mem
  have next : (pdu.seq, pdu.data) ∈ parseFrom framing probe stream origin p := by
    rw [parsed]
    exact List.mem_append_left _ (List.mem_map_of_mem mem)
  exact parse_nonempty _ next

/-- The next PDU to deliver reaches beyond what has been collected. -/
theorem Carried.head_reaches (h : Carried framing probe stream origin frameAt a p k)
    (prompt : Prompt framing probe stream) :
    ∀ pdu ∈ pdus.head?, k < p + pdu.data.length := by
  intro pdu mem
  obtain ⟨others, split⟩ := List.head?_eq_some_iff.1 mem
  rw [split, List.map_cons, List.cons_append] at parsed
  have longer := h.waits.length_lt prompt h.left (wholeFront?_of_parse_cons parsed)
  have position := h.position
  dsimp only at longer
  omega

end

/-- **One chunk**: the PDUs delivered are the next ones, with the frames of their ends. -/
theorem Carried.feed (h : Carried framing probe stream origin frameAt a p k)
    (prompt : Prompt framing probe stream) (desegment : framing.desegment = true)
    (bounded : framing.untilClose = false) (nonempty : c.data ≠ [])
    (seq : c.seq = advance origin k) (data : c.data <+: stream.drop k)
    (own : ∀ x, k ≤ x → x < k + c.data.length → frameAt x = c.frame) :
    ∃ p', Carried framing probe stream origin frameAt (a.feed framing probe c).assembler p'
        (k + c.data.length) ∧
      (a.feed framing probe c).error = none ∧
      p' = p + totalOf (·.data.length) (a.feed framing probe c).pdus ∧
      pdusFrom framing probe stream origin frameAt p =
        (a.feed framing probe c).pdus ++ pdusFrom framing probe stream origin frameAt p' := by
  have length := List.length_pos_iff.2 nonempty
  obtain ⟨p', assembling, error, parsed⟩ :=
    h.feedNext prompt.toRegular desegment bounded nonempty seq data
  obtain ⟨-, buffer, -, fed⟩ := h.feed_eq_drain desegment bounded nonempty data
  have ends := ends_drain ((a.start c).append c).1 framing probe c.frame c.timestamp
  rw [← fed, firstFrame_append, h.firstFrame_start (own k (Nat.le_refl k) (by omega))] at ends
  generalize a.feed framing probe c = out at *
  -- nothing is lost, so the bytes delivered lie between the two positions
  have bytes := congrArg List.length (ends.bytes error)
  rw [buffer, List.length_append, List.length_append, length_flatMap_eq_totalOf] at bytes
  have hp := h.position
  have hp' := assembling.position
  have total : p' = p + totalOf (·.data.length) out.pdus := by omega
  have reaches := h.head_reaches parsed prompt
  refine ⟨p', ⟨assembling, ?_⟩, error, total, ?_⟩
  · intro left
    have inside : 0 < out.assembler.buffer.length := List.length_pos_iff.2 left
    rw [ends.rest]
    split
    · rename_i none
      rw [none, totalOf_nil, Nat.add_zero] at total
      rw [total]
    · rename_i some
      obtain ⟨pdu, others, split⟩ := List.exists_cons_of_ne_nil some
      have := reaches pdu (by rw [split]; rfl)
      rw [split, totalOf_cons] at total
      exact (own p' (by omega) (by omega)).symm
  · rw [pdusFrom, parsed, framed_append, totalOf_map, ← total,
      framed_chunk own reaches (by omega) (nonempty_of_parseFrom parsed) ends.last ends.head
        ends.tail]
    rfl

/-- **Any number of chunks.** -/
theorem Carried.feeds (prompt : Prompt framing probe stream) (desegment : framing.desegment = true)
    (bounded : framing.untilClose = false)
    (h : Carried framing probe stream origin frameAt a p k)
    (consecutive : Consecutive (advance origin k) chunks)
    (cut : chunks.flatMap (·.data) = stream.drop k)
    (own : ∀ x, x < (chunks.flatMap (·.data)).length → frameAt (k + x) = carrier chunks x) :
    ∃ p', Carried framing probe stream origin frameAt (a.feedEach framing probe chunks) p'
        (k + (chunks.flatMap (·.data)).length) ∧
      (∀ out ∈ a.feeds framing probe chunks, out.error = none) ∧
      p' = p + totalOf (·.data.length) ((a.feeds framing probe chunks).flatMap (·.pdus)) ∧
      pdusFrom framing probe stream origin frameAt p =
        (a.feeds framing probe chunks).flatMap (·.pdus) ++
          pdusFrom framing probe stream origin frameAt p' := by
  induction chunks generalizing a p k with
  | nil => exact ⟨p, h, nofun, rfl, rfl⟩
  | cons c rest ih =>
      obtain ⟨nonempty, seq, consecutive⟩ := consecutive
      rw [List.flatMap_cons] at cut own ⊢
      rw [List.length_append] at own ⊢
      have data : c.data <+: stream.drop k := ⟨_, cut⟩
      have here : ∀ x, k ≤ x → x < k + c.data.length → frameAt x = c.frame := by
        intro x above below
        have := own (x - k) (by omega)
        rwa [Nat.add_sub_cancel' above, carrier, if_pos (by omega)] at this
      obtain ⟨mid, first, error, total, pdus⟩ :=
        h.feed prompt desegment bounded nonempty seq data here
      have next : c.endSeq = advance origin (k + c.data.length) := by
        rw [Chunk.endSeq, seq, advance_advance]
      have cut' : rest.flatMap (·.data) = stream.drop (k + c.data.length) := by
        rw [← List.drop_drop, ← cut, List.drop_left]
      have later : ∀ x, x < (rest.flatMap (·.data)).length →
          frameAt (k + c.data.length + x) = carrier rest x := by
        intro x inside
        have := own (c.data.length + x) (by omega)
        rwa [← Nat.add_assoc, carrier, if_neg (by omega), Nat.add_sub_cancel_left] at this
      obtain ⟨p', carried, errors, total', pdus'⟩ := ih first (next ▸ consecutive) cut' later
      refine ⟨p', ?_, ?_, ?_, ?_⟩
      · rw [← Nat.add_assoc]
        exact carried
      · intro out mem
        rcases List.mem_cons.1 mem with rfl | mem
        · exact error
        · exact errors out mem
      · rw [Assembler.feeds, List.flatMap_cons, totalOf_append, ← Nat.add_assoc, ← total]
        exact total'
      · rw [pdus, pdus', Assembler.feeds, List.flatMap_cons, List.append_assoc]

/-- Before anything was fed no PDU is open. -/
theorem carried_new (framing : Framing) (probe : LengthProbe) (stream : List UInt8) (origin : Seq)
    (frameAt : Nat → Nat) : Carried framing probe stream origin frameAt {} 0 0 where
  toAssembling := assembling_new framing probe stream origin
  opened := fun ne => absurd rfl ne

/-- **PDUs do not depend on segmentation.**  However a stream is cut into segments, and wherever its
numbers start, the PDUs delivered are those of its parse, each with the frames that carried its first
and its last byte.  No call fails, the counts the calls return add up to the number of PDUs in the parse,
and what stays collected is what the parse leaves. -/
theorem feeds_eq_framed_parse (prompt : Prompt framing probe stream)
    (desegment : framing.desegment = true) (bounded : framing.untilClose = false)
    (consecutive : Consecutive origin chunks) (cut : chunks.flatMap (·.data) = stream) :
    (feeds {} framing probe chunks).flatMap (·.pdus) =
        framed (carrier chunks) 0 (parse framing probe origin stream) ∧
      (feedEach {} framing probe chunks).buffer =
        stream.drop (totalOf (·.2.length) (parse framing probe origin stream)) ∧
      (∀ out ∈ feeds {} framing probe chunks, out.error = none) ∧
      totalOf (·.delivered) (feeds {} framing probe chunks) =
        (parse framing probe origin stream).length := by
  obtain ⟨p, carried, errors, total, pdus⟩ :=
    (carried_new framing probe stream origin (carrier chunks)).feeds prompt desegment bounded
      ((advance_zero origin).symm ▸ consecutive) cut fun x _ => by rw [Nat.zero_add]
  rw [cut, Nat.zero_add] at carried
  -- the stream is through, so nothing is left to parse
  have done : pdusFrom framing probe stream origin (carrier chunks) p = [] := by
    rw [pdusFrom, carried.parseFrom_eq_nil]
    rfl
  have all : (feeds {} framing probe chunks).flatMap (·.pdus) =
      framed (carrier chunks) 0 (parse framing probe origin stream) := by
    rw [done, List.append_nil, pdusFrom, parseFrom, advance_zero, List.drop_zero] at pdus
    exact pdus.symm
  refine ⟨all, ?_, errors, ?_⟩
  · have rest : (feedEach {} framing probe chunks).buffer = stream.drop p := by
      refine carried.waits.front.eq_of_length ?_
      have := carried.position
      rw [List.length_drop]
      omega
    rw [rest, total, all, totalOf_framed, Nat.zero_add]
  · rw [totalOf_delivered_feeds, all, length_framed]

end

end Assembler

/-! ### Length fields -/

/-- A length field that counts a header at least as long as the field reaches is told in time. -/
theorem LengthField.prompt (f : LengthField) {framing : Framing} (pos : 0 < f.headerLen)
    (covers : framing.fixedLen ≤ f.headerLen) (header : f.fixedLen ≤ f.headerLen)
    (fits : BigEndian.capacity f.width.bytes + f.headerLen ≤ Assembler.maxPduLen)
    (stream : List UInt8) : Assembler.Prompt framing f.probe stream where
  toRegular := f.regular pos covers fits stream
  prompt rest _ bytes more _ _ _ unknown n known := by
    rw [probe_eq] at unknown known
    split at unknown
    · cases unknown
    · split at known
      · have value := PduLength.known.inj known
        have room : f.headerLen ≤ maxTotal := by
          unfold Assembler.maxPduLen at fits
          unfold maxTotal
          omega
        omega
      · cases known

namespace Assembler

/-- Two PDUs and a half in three segments, the second PDU across all of them, over numbers that
wrap. -/
theorem feeds_wrapping :
    let probe := LengthField.probe ⟨0, .one, 1⟩
    let chunks : List Chunk :=
      [⟨0xfffffffe, 7, 0, [1, 20, 3]⟩, ⟨1, 8, 0, [30]⟩, ⟨2, 9, 0, [31, 32, 5]⟩]
    Consecutive 0xfffffffe chunks ∧
      (feeds {} {} probe chunks).flatMap (·.pdus) =
        [⟨0xfffffffe, [1, 20], 7, 7, true⟩, ⟨0, [3, 30, 31, 32], 7, 9, true⟩] ∧
      (feedEach {} {} probe chunks).buffer = [5] ∧
      totalOf (·.delivered) (feeds {} {} probe chunks) = 2 := by
  intro probe chunks
  have consecutive : Consecutive 0xfffffffe chunks := by
    unfold chunks
    simp only [Consecutive, ne_eq, List.cons_ne_self, List.cons_ne_nil, not_false_eq_true, true_and,
      and_true]
    decide
  have parsed : parse {} probe 0xfffffffe [1, 20, 3, 30, 31, 32, 5] =
      [(0xfffffffe, [1, 20]), (0, [3, 30, 31, 32])] := by
    rw [parse_of_some (n := 2) (by decide +kernel), parse_of_some (n := 4) (by decide +kernel),
      parse_of_none (by decide +kernel)]
    decide
  have prompt : Prompt {} probe [1, 20, 3, 30, 31, 32, 5] :=
    LengthField.prompt _ (by decide) (by decide) (by decide) (by decide) _
  obtain ⟨pdus, buffer, -, count⟩ := feeds_eq_framed_parse prompt rfl rfl consecutive rfl
  rw [parsed] at pdus buffer count
  exact ⟨consecutive, pdus, buffer, count⟩

end Assembler

end TcpCapture
