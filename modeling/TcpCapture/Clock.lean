/-!
# Capture time

Times are whole nanoseconds since a fixed but arbitrary origin, as natural numbers; lengths of time
are in the same unit.  Capture clocks may step backwards: every age is therefore a subtraction that
stops at zero.
-/

namespace TcpCapture

/-- Nanoseconds in a second. -/
def nanosPerSecond : Nat := 1000000000

/-- More than `ttl` has passed since `lastSeen`. -/
def isExpired (now lastSeen ttl : Nat) : Bool := decide (ttl < now - lastSeen)

/-- `now` falls less than `window` after `start`. -/
def isWithin (now start window : Nat) : Bool := decide (now - start < window)

theorem isExpired_iff {now lastSeen ttl : Nat} :
    isExpired now lastSeen ttl = true ↔ lastSeen + ttl < now := by
  simp [isExpired]; omega

/-- The longer ago a connection was active, the sooner it expires. -/
theorem isExpired_mono {now seen seen' ttl : Nat} (h : seen' ≤ seen)
    (expired : isExpired now seen ttl = true) : isExpired now seen' ttl = true := by
  rw [isExpired_iff] at expired ⊢; omega

end TcpCapture
