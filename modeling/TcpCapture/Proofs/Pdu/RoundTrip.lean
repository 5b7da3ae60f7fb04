import TcpCapture.Proofs.Pdu.OpenPdu
import TcpCapture.Proofs.Pdu.Segmentation

/-!
# Messages that announce their length

Messages with a length field, one after another, make a stream.  However it is cut into segments, the
assembler that reads this field gives back the messages, and nothing is left over.

## Main definitions

* `LengthField.Message` — a message whose field tells its length
* `placed` — messages that follow one another, each with the position of its first byte
* `Assembler.feeds_messages` — cutting messages into segments and assembling them loses nothing

**Boundaries are found again.**  Cutting whole PDUs off the front of such a stream leaves the stream of
the later messages (`leftOver_messages`), so the probe is only ever asked about the front of a message.
There it answers as soon as it is asked, and with the length of that message.
-/

namespace TcpCapture

namespace LengthField

/-- A message as the field describes it: `offset` bytes, the field, and as many bytes as make the length
that the field and the header length add up to. -/
structure Message (f : LengthField) where
  lead : List UInt8
  value : Nat
  body : List UInt8
  lead_length : lead.length = f.offset
  value_lt : value < BigEndian.capacity f.width.bytes
  total : f.fixedLen + body.length = value + f.headerLen
  lt : value + f.headerLen < Assembler.maxPduLen

variable {f : LengthField}

/-- The bytes on the wire. -/
def Message.bytes (m : f.Message) : List UInt8 :=
  m.lead ++ (BigEndian.toBytes f.width.bytes m.value ++ m.body)

namespace Message

variable (m : f.Message)

@[simp] theorem length_bytes : m.bytes.length = m.value + f.headerLen := by
  have total := m.total
  unfold fixedLen at total
  rw [bytes, List.length_append, List.length_append, BigEndian.length_toBytes, m.lead_length]
  omega

theorem fixedLen_le : f.fixedLen ≤ m.bytes.length := by
  have total := m.total
  rw [length_bytes]
  omega

theorem bytes_pos : 0 < m.bytes.length := by
  have width : 0 < f.width.bytes := by cases f.width <;> decide
  have long := m.fixedLen_le
  unfold fixedLen at long
  omega

/-- The field stands behind the lead, whatever comes after the message. -/
theorem field_eq (rest : List UInt8) :
    ((m.bytes ++ rest).drop f.offset).take f.width.bytes =
      BigEndian.toBytes f.width.bytes m.value := by
  rw [bytes, List.append_assoc, List.append_assoc, ← m.lead_length, List.drop_left]
  exact List.take_left' (BigEndian.length_toBytes f.width.bytes m.value)

/-- **The header is enough**: once the field is there, the probe tells the length of the message. -/
theorem probe_eq_known {header rest : List UInt8} (front : header <+: m.bytes ++ rest)
    (long : f.fixedLen ≤ header.length) : f.probe header = .known m.bytes.length := by
  have field : (header.drop f.offset).take f.width.bytes =
      BigEndian.toBytes f.width.bytes m.value := by
    rw [← m.field_eq rest]
    obtain ⟨later, split⟩ := front
    unfold fixedLen at long
    rw [← split, List.drop_append_of_le_length (by omega), List.take_append_of_le_length]
    rw [List.length_drop]
    omega
  have small : m.value + f.headerLen ≤ maxTotal := by
    have := m.lt
    unfold Assembler.maxPduLen at this
    unfold maxTotal
    omega
  rw [probe_eq, if_pos long, field, BigEndian.ofBytes_toBytes, Nat.mod_eq_of_lt m.value_lt,
    Nat.min_eq_left small, length_bytes]

end Message

end LengthField

/-- Messages that follow one another from a position on, each with the position of its first byte. -/
def placed (seq : Seq) : List (List UInt8) → List (Seq × List UInt8)
  | [] => []
  | bytes :: rest => (seq, bytes) :: placed (advance seq bytes.length) rest

theorem map_snd_placed (seq : Seq) (messages : List (List UInt8)) :
    (placed seq messages).map Prod.snd = messages := by
  induction messages generalizing seq with
  | nil => rfl
  | cons bytes rest ih => rw [placed, List.map_cons, ih]

theorem length_placed (seq : Seq) (messages : List (List UInt8)) :
    (placed seq messages).length = messages.length := by
  rw [← List.length_map Prod.snd, map_snd_placed]

/-- Frames do not change what is delivered. -/
theorem map_framed (frameAt : Nat → Nat) (position : Nat) (l : List (Seq × List UInt8)) :
    (framed frameAt position l).map (fun pdu => (pdu.data, pdu.complete)) =
      (l.map Prod.snd).map (·, true) := by
  induction l generalizing position with
  | nil => rfl
  | cons x rest ih => rw [framed, List.map_cons, ih, List.map_cons, List.map_cons]

namespace Assembler

section

variable {f : LengthField} {framing : Framing} (header : framing.fixedLen = f.fixedLen)

include header

/-! ### A stream of messages -/

/-- The first message of a stream is found as a whole. -/
theorem wholeFront?_message (m : f.Message) (rest : List UInt8) :
    wholeFront? framing f.probe (m.bytes ++ rest) = some m.bytes.length := by
  have enough : m.bytes.length ≤ (m.bytes ++ rest).length := by
    rw [List.length_append]
    omega
  have long : f.fixedLen ≤ (m.bytes ++ rest).length := Nat.le_trans m.fixedLen_le enough
  rw [wholeFront?_of_known (header ▸ long) (m.probe_eq_known (List.prefix_refl _) long) m.bytes_pos,
    if_pos enough]

/-- Whole PDUs are cut off at the ends of messages. -/
theorem leftOver_messages {messages : List f.Message} {rest : List UInt8}
    (left : LeftOver framing f.probe (messages.flatMap (·.bytes)) rest) :
    ∃ later : List f.Message, rest = later.flatMap (·.bytes) := by
  induction left with
  | whole => exact ⟨messages, rfl⟩
  | cut _ front ih =>
      obtain ⟨later, rfl⟩ := ih
      cases later with
      | nil =>
          rw [List.flatMap_nil, wholeFront?_nil] at front
          cases front
      | cons m later =>
          rw [List.flatMap_cons, wholeFront?_message header] at front
          obtain rfl := Option.some.inj front
          exact ⟨later, by rw [List.flatMap_cons, List.drop_left]⟩

/-- Whenever the probe is asked, it knows the length of the message at the front. -/
theorem known_of_asked {messages : List f.Message} {rest bytes : List UInt8}
    (left : LeftOver framing f.probe (messages.flatMap (·.bytes)) rest)
    (asked : Asked framing rest bytes) :
    ∃ m : f.Message, (∃ behind, rest = m.bytes ++ behind) ∧
      f.probe bytes = .known m.bytes.length := by
  obtain ⟨later, rfl⟩ := leftOver_messages header left
  cases later with
  | nil => exact absurd (List.prefix_nil.1 asked.front) asked.nonempty
  | cons m later =>
      refine ⟨m, ⟨later.flatMap (·.bytes), List.flatMap_cons⟩, ?_⟩
      exact m.probe_eq_known (List.flatMap_cons ▸ asked.front) (header ▸ asked.long)

/-- On a stream of messages the length is told in time. -/
theorem prompt_messages (messages : List f.Message) :
    Prompt framing f.probe (messages.flatMap (·.bytes)) where
  answers rest left bytes asked := by
    obtain ⟨m, -, known⟩ := known_of_asked header left asked
    exact Or.inr ⟨_, known, m.bytes_pos, m.length_bytes ▸ m.lt, header ▸ m.fixedLen_le⟩
  stable rest left bytes more asked longer front n known := by
    obtain ⟨m, ⟨behind, rfl⟩, known'⟩ := known_of_asked header left asked
    have long : f.fixedLen ≤ more.length := header ▸ (asked.more longer front).long
    rw [m.probe_eq_known front long, ← known', known]
  prompt rest left bytes more asked _ _ unknown n _ := by
    obtain ⟨m, -, known⟩ := known_of_asked header left asked
    rw [known] at unknown
    cases unknown

/-- A stream of messages parses into these messages. -/
theorem parse_messages (seq : Seq) (messages : List f.Message) :
    parse framing f.probe seq (messages.flatMap (·.bytes)) =
      placed seq (messages.map (·.bytes)) := by
  induction messages generalizing seq with
  | nil => exact parse_of_none (wholeFront?_nil framing f.probe) seq
  | cons m rest ih =>
      rw [List.flatMap_cons, parse_of_some (wholeFront?_message header m _), List.take_left,
        List.drop_left, ih, List.map_cons, placed]

end

/-! ### The assembler at the end of a stream -/

section

variable {framing : Framing} {probe : LengthProbe} {stream : List UInt8} {origin : Seq}
  {chunks : List Chunk}

theorem InStep.feedEach {a : Assembler} (h : a.InStep) (framing : Framing) (probe : LengthProbe)
    (chunks : List Chunk) : (a.feedEach framing probe chunks).InStep := by
  induction chunks generalizing a with
  | nil => exact h
  | cons c rest ih => exact ih (h.feed framing probe c)

/-- An assembler in step that holds no bytes is as good as new. -/
theorem InStep.isEmpty {a : Assembler} (h : a.InStep) (none : a.buffer = []) : a.IsEmpty where
  state := h.idle_iff_buffer.2 none
  buffer := none
  descriptors := congrArg PduTable.mk (h.buffer_iff_descriptors.1 none)

/-- A stream that is a sequence of whole PDUs leaves nothing behind. -/
theorem isEmpty_of_parse (prompt : Prompt framing probe stream) (desegment : framing.desegment = true)
    (bounded : framing.untilClose = false) (consecutive : Consecutive origin chunks)
    (cut : chunks.flatMap (·.data) = stream)
    (whole : totalOf (·.2.length) (parse framing probe origin stream) = stream.length) :
    (feeds {} framing probe chunks).flatMap (·.pdus) =
        framed (carrier chunks) 0 (parse framing probe origin stream) ∧
      (∀ out ∈ feeds {} framing probe chunks, out.error = none) ∧
      (feedEach {} framing probe chunks).IsEmpty := by
  obtain ⟨p, carried, errors, total, pdus⟩ :=
    (carried_new framing probe stream origin (carrier chunks)).feeds prompt desegment bounded
      ((advance_zero origin).symm ▸ consecutive) cut fun x _ => by rw [Nat.zero_add]
  rw [cut, Nat.zero_add] at carried
  have done : pdusFrom framing probe stream origin (carrier chunks) p = [] := by
    rw [pdusFrom, carried.parseFrom_eq_nil]
    rfl
  have all : (feeds {} framing probe chunks).flatMap (·.pdus) =
      framed (carrier chunks) 0 (parse framing probe origin stream) := by
    rw [done, List.append_nil, pdusFrom, parseFrom, advance_zero, List.drop_zero] at pdus
    exact pdus.symm
  have inStep : (feedEach {} framing probe chunks).InStep :=
    (IsEmpty.inStep ⟨rfl, rfl, rfl⟩ : InStep {}).feedEach framing probe chunks
  refine ⟨all, errors, inStep.isEmpty ?_⟩
  -- the bytes delivered are those of the stream, so none of them is held
  have position := carried.position
  rw [all, totalOf_framed, whole] at total
  exact List.eq_nil_of_length_eq_zero (by omega)

end

theorem totalOf_placed (seq : Seq) (messages : List (List UInt8)) :
    totalOf (·.2.length) (placed seq messages) = messages.flatten.length := by
  induction messages generalizing seq with
  | nil => rfl
  | cons bytes rest ih => rw [placed, totalOf_cons, ih, List.flatten_cons, List.length_append]

/-- **Framing round trip.**  Let messages that announce their length follow one another, and let their
bytes be cut into segments in any way, from any position on.  A new assembler that reads the announced
lengths delivers these messages, in order, each as one complete PDU at its position and with the frames
that carried its ends.  No call fails, and in the end nothing is collected and nothing described. -/
theorem feeds_messages {f : LengthField} {origin : Seq} {chunks : List Chunk}
    (messages : List f.Message) (consecutive : Consecutive origin chunks)
    (cut : chunks.flatMap (·.data) = messages.flatMap (·.bytes)) :
    let framing : Framing := { desegment := true, fixedLen := f.fixedLen }
    ((feeds {} framing f.probe chunks).flatMap (·.pdus)).map (fun pdu => (pdu.data, pdu.complete)) =
        messages.map (fun m => (m.bytes, true)) ∧
      (feeds {} framing f.probe chunks).flatMap (·.pdus) =
        framed (carrier chunks) 0 (placed origin (messages.map (·.bytes))) ∧
      (∀ out ∈ feeds {} framing f.probe chunks, out.error = none) ∧
      (feedEach {} framing f.probe chunks).IsEmpty := by
  intro framing
  have header : framing.fixedLen = f.fixedLen := rfl
  have parsed := parse_messages header origin messages
  have whole : totalOf (·.2.length)
      (parse framing f.probe origin (messages.flatMap (·.bytes))) =
      (messages.flatMap (·.bytes)).length := by
    rw [parsed, totalOf_placed]
    rfl
  obtain ⟨pdus, errors, empty⟩ :=
    isEmpty_of_parse (prompt_messages header messages) rfl rfl consecutive cut whole
  rw [parsed] at pdus
  refine ⟨?_, pdus, errors, empty⟩
  rw [pdus, map_framed, map_snd_placed, List.map_map]
  rfl

/-- Two messages with a two-byte field behind one byte, the second one all header.  They are cut inside
the first header, inside its body, and the numbers wrap. -/
theorem feeds_messages_wrapping :
    let f : LengthField := ⟨1, .two, 3⟩
    let first : f.Message := ⟨[0x17], 2, [40, 50], rfl, by decide, rfl, by decide⟩
    let second : f.Message := ⟨[0x18], 0, [], rfl, by decide, rfl, by decide⟩
    let chunks : List Chunk :=
      [⟨0xfffffffe, 7, 0, [0x17, 0]⟩, ⟨0, 8, 0, [2, 40]⟩, ⟨2, 9, 0, [50, 0x18, 0, 0]⟩]
    (Consecutive 0xfffffffe chunks ∧
        chunks.flatMap (·.data) = [first, second].flatMap (·.bytes)) ∧
      (feeds {} { fixedLen := f.fixedLen } f.probe chunks).flatMap (·.pdus) =
        [⟨0xfffffffe, [0x17, 0, 2, 40, 50], 7, 9, true⟩, ⟨3, [0x18, 0, 0], 9, 9, true⟩] ∧
      (feedEach {} { fixedLen := f.fixedLen } f.probe chunks).IsEmpty := by
  intro f first second chunks
  have consecutive : Consecutive 0xfffffffe chunks := by
    unfold chunks
    simp only [Consecutive, ne_eq, List.cons_ne_nil, not_false_eq_true, true_and, and_true]
    decide
  have cut : chunks.flatMap (·.data) = [first, second].flatMap (·.bytes) := by decide
  obtain ⟨-, pdus, -, empty⟩ := feeds_messages [first, second] consecutive cut
  exact ⟨⟨consecutive, cut⟩, pdus.trans (by decide), empty⟩

end Assembler

end TcpCapture
