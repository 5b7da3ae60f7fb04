import TcpCapture.Proofs.Pdu.BadLength
import TcpCapture.Proofs.Session.Run

/-!
# Counting deliveries

The report of a segment says how many PDUs it delivered.  They come from the chunks its payload lets
out, and from the end of its direction.

## Main definitions

* `Session.Processed.CountsDeliveries` — the report counts the PDUs the call delivered
* `Session.Processed.FailsEmpty` — the call delivered nothing, if it reports an error
* `Connection.handle_pdusDelivered` — what the count is, with and without an error

**Errors cut the count, not the deliveries.**  PDUs cut off in front of a bad length have gone out when
it is found, and the count of them is given up with the chunk.  The end of the direction does not make
up for it: an error leaves nothing to deliver there.
-/

namespace TcpCapture

/-- Chunks fed up to an error leave a fresh assembler. -/
theorem Assembler.isFresh_feedAll_of_error {a : Assembler} {framing : Framing} {probe : LengthProbe}
    {chunks : List Chunk} (failed : (a.feedAll framing probe chunks).error ≠ none) :
    (a.feedAll framing probe chunks).assembler.IsFresh := by
  rcases a.feedAll_cases framing probe chunks with ⟨fine, -⟩ | ⟨front, c, back, -, error, fed, -⟩
  · exact absurd fine failed
  · rw [fed]
    exact isFresh_feed_of_error error

namespace Connection

variable (c : Connection) (registry : MetaRegistry) (config : Config) (probe : Option LengthProbe)
  (d : Direction) (s : Segment)

/-- After an error the direction has nothing collected. -/
theorem isFresh_dissected_of_error
    (failed : (c.dissected registry config probe d s).error ≠ none) :
    ((c.dissected registry config probe d s).connection.flow d).assembler.IsFresh := by
  rcases c.dissected_cases registry config probe d s with
    ⟨-, same⟩ | ⟨-, lengthProbe, f, chunks, -, -, fed⟩
  · rw [same] at failed
    exact absurd rfl failed
  · rw [fed] at failed ⊢
    rw [flow_setFlow_same]
    exact Assembler.isFresh_feedAll_of_error failed

/-- So its end delivers nothing. -/
theorem pdus_finished_of_error (failed : (c.dissected registry config probe d s).error ≠ none) :
    (c.finished registry config probe d s).pdus = [] := by
  have fresh := c.isFresh_dissected_of_error registry config probe d s failed
  unfold finished
  split
  · obtain ⟨f, -, -, ⟨-, -, pdus⟩ | ⟨-, -, pdus⟩⟩ :=
      (c.dissected registry config probe d s).connection.closeDirection_cases d s.frame probe.isSome
    · rw [pdus, fresh.close_pdu]
      rfl
    · exact pdus
  · rfl

/-- The payload of a segment counts what it delivers. -/
theorem delivered_dissected :
    (c.dissected registry config probe d s).delivered =
      (c.dissected registry config probe d s).pdus.length := by
  rcases c.dissected_cases registry config probe d s with
    ⟨-, same⟩ | ⟨-, lengthProbe, f, chunks, -, -, fed⟩
  · rw [same]
    rfl
  · rw [fed]
    exact f.assembler.delivered_feedAll config.framing lengthProbe chunks

/-- And so does the end of its direction. -/
theorem delivered_finished :
    (c.finished registry config probe d s).delivered =
      (c.finished registry config probe d s).pdus.length := by
  unfold finished closeDirection
  split
  · dsimp only
    split
    · exact Assembler.delivered_close ..
    · rfl
  · rfl

/-- **The count of a segment** is that of the PDUs it delivers, or nothing if it reports an error. -/
theorem handle_pdusDelivered :
    (c.handle registry config probe d s).report.pdusDelivered =
      if (c.handle registry config probe d s).report.pduError.isSome then 0
      else (c.handle registry config probe d s).pdus.length := by
  rw [handle_eq]
  dsimp only
  rw [delivered_dissected, delivered_finished, List.length_append]
  split
  · rename_i failed
    rw [c.pdus_finished_of_error registry config probe d s (Option.isSome_iff_ne_none.1 failed)]
    rfl
  · rfl

end Connection

namespace Session

/-- The report of the call counts the PDUs the call delivered. -/
def Processed.CountsDeliveries (p : Processed) : Prop :=
  ∀ report, p.report = .ok report → report.pdusDelivered = p.deliveries.length

/-- The call delivered nothing, if it reports a length that cannot be framed. -/
def Processed.FailsEmpty (p : Processed) : Prop :=
  ∀ report, p.report = .ok report → report.pduError.isSome → p.deliveries = []

/-- What a call counts is what it delivered, or nothing if it reports an error. -/
theorem pdusDelivered_take {s : Session} (h : s.Consistent) {call : Call} {report : SegmentReport}
    (ok : (s.take call).report = .ok report) :
    report.pdusDelivered =
      if report.pduError.isSome then 0 else (s.take call).deliveries.length := by
  rcases s.take_cases call with ⟨e, refused⟩ | ⟨r, c, handles⟩
  · rw [take_of_refused refused] at ok
    cases ok
  · rw [handles.take_eq h] at ok ⊢
    obtain rfl := Except.ok.inj ok
    rw [List.length_map]
    exact Connection.handle_pdusDelivered ..

/-- **A call of any run counts its deliveries if and only if it delivers nothing when it reports an
error.** -/
theorem countsDeliveries_iff (config : Config) (calls : List Call) (call : Call) :
    (((new config).after calls).take call).CountsDeliveries ↔
      (((new config).after calls).take call).FailsEmpty := by
  have counted {report : SegmentReport} :
      (((new config).after calls).take call).report = .ok report → report.pdusDelivered =
        if report.pduError.isSome then 0
        else (((new config).after calls).take call).deliveries.length :=
    pdusDelivered_take ((consistent_new config).after calls)
  generalize ((new config).after calls).take call = p at counted
  constructor
  · intro counts report ok failed
    have count := counts report ok
    rw [counted ok, if_pos failed] at count
    exact List.length_eq_zero_iff.1 count.symm
  · intro empty report ok
    rw [counted ok]
    split
    · rename_i failed
      rw [empty report ok failed]
      rfl
    · rfl

/-- A PDU in front of a length that is zero is delivered and not counted. -/
theorem not_countsDeliveries : ¬ ∀ (config : Config) (calls : List Call) (call : Call),
    (((new config).after calls).take call).CountsDeliveries := by
  intro all
  let client : Endpoint := ⟨.v4 0x0a000001, 40000⟩
  let server : Endpoint := ⟨.v4 0x0a000002, 443⟩
  let syn : Call := { segment := { source := client, destination := server, flags.syn := true } }
  let data : Call := {
    segment := {
      source := client, destination := server, seq := 1, ack := 78, flags.ack := true
      payload := [2, 9, 0] }
    probe := LengthField.probe ⟨0, .one, 0⟩ }
  have counts := all {} [syn] data
  have reported : (((new {}).after [syn]).take data).report.toOption.map (·.pdusDelivered) =
      some 0 := by decide +kernel
  have delivered : (((new {}).after [syn]).take data).deliveries.length = 1 := by decide +kernel
  cases ok : (((new {}).after [syn]).take data).report with
  | error e =>
      rw [ok] at reported
      cases reported
  | ok report =>
      rw [ok] at reported
      have none : report.pdusDelivered = 0 := Option.some.inj reported
      rw [counts report ok, delivered] at none
      cases none

end Session

end TcpCapture
