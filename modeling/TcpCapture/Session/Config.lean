import TcpCapture.Flow.Classification
import TcpCapture.Pdu.Length

/-!
# Settings of a session
-/

namespace TcpCapture

/-- What a session tracks, and how much of it.  Times are in nanoseconds. -/
structure Config where
  /-- Classify segments. -/
  analyzeSequence : Bool := true
  /-- Track connections whose opening was not captured. -/
  acceptMidstream : Bool := true
  maxConnections : Nat := 100000
  idleTimeout : Nat := 300 * nanosPerSecond
  thresholds : Thresholds := {}
  /-- Keep a record of every segment. -/
  recordHistory : Bool := true
  /-- Follow multipath connections. -/
  multipath : Bool := true
  /-- Bytes one direction may hold behind a hole before the hole is given up. -/
  maxReorderBytes : Nat := 4194304
  framing : Framing := {}
deriving DecidableEq, Repr

/-- Least time between two sweeps for idle connections. -/
def Config.sweepInterval (c : Config) : Nat := c.idleTimeout / 4

end TcpCapture
