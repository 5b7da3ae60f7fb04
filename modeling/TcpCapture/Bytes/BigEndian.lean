/-!
# Big-endian numbers

Numbers on the wire come most significant byte first.  `ofBytes` reads such a number and `toBytes`
writes one in a given number of bytes; reading back what was written gives the number modulo the
capacity of the field (`ofBytes_toBytes`).
-/

namespace TcpCapture.BigEndian

/-- The number a list of bytes spells, most significant byte first. -/
def ofBytes (bytes : List UInt8) : Nat := bytes.foldl (fun acc b => 256 * acc + b.toNat) 0

/-- The last `n` base-256 digits of a number, most significant first. -/
def toBytes : Nat → Nat → List UInt8
  | 0, _ => []
  | n + 1, value => toBytes n (value / 256) ++ [UInt8.ofNat (value % 256)]

/-- How many numbers a field of `n` bytes can spell. -/
def capacity : Nat → Nat
  | 0 => 1
  | n + 1 => 256 * capacity n

@[simp] theorem ofBytes_nil : ofBytes [] = 0 := rfl

theorem ofBytes_append_singleton (bytes : List UInt8) (b : UInt8) :
    ofBytes (bytes ++ [b]) = 256 * ofBytes bytes + b.toNat := by
  simp [ofBytes]

@[simp] theorem length_toBytes (n value : Nat) : (toBytes n value).length = n := by
  induction n generalizing value with
  | zero => rfl
  | succ n ih => simp [toBytes, ih]

theorem ofBytes_toBytes (n value : Nat) : ofBytes (toBytes n value) = value % capacity n := by
  induction n generalizing value with
  | zero => rw [toBytes, ofBytes_nil, capacity, Nat.mod_one]
  | succ n ih =>
    have h : (UInt8.ofNat (value % 256)).toNat = value % 256 := by
      simp
    rw [toBytes, ofBytes_append_singleton, ih, h, capacity, Nat.mod_mul]
    omega

end TcpCapture.BigEndian
