/-!
# Header flags

The nine flags of a TCP header and the bit field that carries them, FIN in the lowest bit.
-/

namespace TcpCapture

/-- The flags of a TCP header. -/
structure TcpFlags where
  /-- No more data from the sender. -/
  fin : Bool := false
  /-- Synchronise sequence numbers. -/
  syn : Bool := false
  /-- Reset the connection. -/
  rst : Bool := false
  /-- Hand the data over at once. -/
  psh : Bool := false
  /-- The acknowledgment number is meant. -/
  ack : Bool := false
  /-- The urgent pointer is meant. -/
  urg : Bool := false
  /-- Congestion was experienced. -/
  ece : Bool := false
  /-- The congestion window was reduced. -/
  cwr : Bool := false
  /-- Protection against concealed congestion marks. -/
  ns : Bool := false
deriving DecidableEq, Repr

namespace TcpFlags

/-- The flags a bit field sets; bits past the ninth are ignored. -/
def ofBits (bits : Nat) : TcpFlags where
  fin := bits.testBit 0
  syn := bits.testBit 1
  rst := bits.testBit 2
  psh := bits.testBit 3
  ack := bits.testBit 4
  urg := bits.testBit 5
  ece := bits.testBit 6
  cwr := bits.testBit 7
  ns := bits.testBit 8

/-- The bit field that sets exactly these flags. -/
def bits (f : TcpFlags) : Nat :=
  f.fin.toNat + 2 * f.syn.toNat + 4 * f.rst.toNat + 8 * f.psh.toNat + 16 * f.ack.toNat +
    32 * f.urg.toNat + 64 * f.ece.toNat + 128 * f.cwr.toNat + 256 * f.ns.toNat

/-- The segment opens, ends or resets a connection. -/
def hasControl (f : TcpFlags) : Bool := f.syn || f.fin || f.rst

/-- Sequence numbers the flags themselves occupy: one for SYN and one for FIN. -/
def sequenceLen (f : TcpFlags) : Nat := f.syn.toNat + f.fin.toNat

theorem sequenceLen_le (f : TcpFlags) : f.sequenceLen ≤ 2 := by
  unfold sequenceLen
  cases f.syn <;> cases f.fin <;> decide

end TcpFlags

end TcpCapture
