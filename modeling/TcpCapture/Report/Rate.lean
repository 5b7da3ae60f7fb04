import TcpCapture.Clock
import TcpCapture.Connection.Basic
import TcpCapture.Total

/-!
# Rates

How fast data was sent, and how fast it was acknowledged, over a trailing window of time.

## Main definitions

* `Sample` — bytes that count at a moment
* `trailing` — the samples still in the window at each moment
* `throughput`, `goodput` — the series of payload sent and of data acknowledged

**The window** is a queue: samples leave at its front once they are as old as the window is long.  On
a clock that never steps back these are exactly the samples older than that.
-/

namespace TcpCapture

/-- One point of a rate series. -/
structure RatePoint where
  frame : Nat
  time : Nat
  bitsPerSec : Float

/-- Bytes that count at a moment. -/
structure Sample where
  frame : Nat
  time : Nat
  bytes : Nat
deriving DecidableEq, Repr

/-- Each sample, and the queue of those in the window ending with it, from the queue so far. -/
def trailing (window : Nat) : List Sample → List Sample → List (Sample × List Sample)
  | _, [] => []
  | queue, s :: rest =>
    let queue := (queue ++ [s]).dropWhile fun old => !isWithin s.time old.time window
    (s, queue) :: trailing window queue rest

/-- A length of time in seconds. -/
def inSeconds (nanos : Nat) : Float :=
  (nanos / nanosPerSecond).toUInt64.toFloat +
    (nanos % nanosPerSecond).toUInt64.toFloat / nanosPerSecond.toUInt64.toFloat

/-- Bits per second, when a number of bytes falls into a window. -/
def rateOf (bytes window : Nat) : Float := (bytes * 8).toUInt64.toFloat / inSeconds window

/-- The rate over the trailing window at each sample.  An empty window has no rates. -/
def movingRate (window : Nat) (samples : List Sample) : List RatePoint :=
  if window = 0 then []
  else
    (trailing window [] samples).map fun (s, queue) =>
      { frame := s.frame, time := s.time, bitsPerSec := rateOf (totalOf (·.bytes) queue) window }

/-- What was sent in a direction: one sample for each data segment. -/
def sentSamples (records : List SegmentRecord) (d : Direction) : List Sample :=
  (records.filter fun r => r.direction == d && r.len != 0).map fun r =>
    ⟨r.frame, r.timestamp, r.len⟩

/-- What acknowledgments gain, given the highest one so far: one sample for each that is after it.
The first acknowledgment gains nothing, as what it covers was not seen. -/
def gains : Option Seq → List SegmentRecord → List Sample
  | _, [] => []
  | highest, r :: rest =>
    match highest, r.ack with
    | _, none => gains highest rest
    | none, some ack => gains (some ack) rest
    | some prev, some ack =>
      if after ack prev then
        ⟨r.frame, r.timestamp, (ack - prev).toNat⟩ :: gains (some ack) rest
      else gains highest rest

/-- What was acknowledged of a direction, by the segments of the other one. -/
def ackedSamples (records : List SegmentRecord) (d : Direction) : List Sample :=
  gains none (records.filter fun r => r.direction == d.opposite)

/-- The rate at which payload was sent in a direction. -/
def throughput (records : List SegmentRecord) (d : Direction) (window : Nat) : List RatePoint :=
  movingRate window (sentSamples records d)

/-- The rate at which data of a direction was acknowledged. -/
def goodput (records : List SegmentRecord) (d : Direction) (window : Nat) : List RatePoint :=
  movingRate window (ackedSamples records d)

end TcpCapture
