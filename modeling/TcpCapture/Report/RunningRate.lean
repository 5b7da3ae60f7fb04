import TcpCapture.Report.Rate

/-!
# Rates by a running total

The bytes in the trailing window need not be added up again at every sample.  They are kept as a running
total: a sample adds its bytes as it comes, and takes them off as it leaves.

## Main definitions

* `RateWindow` — the samples in the window, and their total
* `RateWindow.shed?` — lets the oldest samples go
* `runningRate?` — the rate at each sample, as `movingRate` has it

**No total below zero.**  Totals are counted in natural numbers, and a sample that would take off more bytes
than there are leaves no result.
-/

namespace TcpCapture

/-- The samples in the window, oldest first, and the running total of their bytes. -/
structure RateWindow where
  queue : List Sample := []
  bytes : Nat := 0
deriving DecidableEq, Repr

namespace RateWindow

/-- Lets samples go at the front while they are as old as the window is long. -/
def shed? (window now : Nat) : List Sample → Nat → Option RateWindow
  | [], bytes => some { queue := [], bytes }
  | old :: rest, bytes =>
    if isWithin now old.time window then some { queue := old :: rest, bytes }
    else if old.bytes ≤ bytes then shed? window now rest (bytes - old.bytes)
    else none

/-- Takes a sample and lets go of those that are too old by then. -/
def push? (w : RateWindow) (window : Nat) (s : Sample) : Option RateWindow :=
  shed? window s.time (w.queue ++ [s]) (w.bytes + s.bytes)

/-- The rate at each of some samples that come after those in the window. -/
def rates? (window : Nat) : RateWindow → List Sample → Option (List RatePoint)
  | _, [] => some []
  | w, s :: rest =>
    (w.push? window s).bind fun w =>
      (rates? window w rest).map
        ({ frame := s.frame, time := s.time, bitsPerSec := rateOf w.bytes window } :: ·)

end RateWindow

/-- The rate over the trailing window at each sample, by a running total. -/
def runningRate? (window : Nat) (samples : List Sample) : Option (List RatePoint) :=
  if window = 0 then some [] else RateWindow.rates? window {} samples

end TcpCapture
