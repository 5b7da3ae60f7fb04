/-!
# Addresses and endpoints

## Main definitions

* `IpAddress` — an IPv4 or IPv6 address, with its standard text
* `Endpoint` — an address and a port
* `Endpoint.le` — the order that decides which end of a conversation is written first

**Text.** IPv4 is dotted decimal.  IPv6 is eight hexadecimal groups without leading zeros, the
longest run of at least two zero groups written as a double colon (the first such run on a tie); an
IPv4-mapped address ends in the dotted form.
-/

namespace TcpCapture

/-- An Internet address, as the number its bits spell. -/
inductive IpAddress where
  | v4 (bits : BitVec 32)
  | v6 (bits : BitVec 128)
deriving DecidableEq, Repr

namespace IpAddress

/-- Every IPv4 address is below every IPv6 address; within a family the numbers decide. -/
def le : IpAddress → IpAddress → Bool
  | v4 x, v4 y => decide (x ≤ y)
  | v4 _, v6 _ => true
  | v6 _, v4 _ => false
  | v6 x, v6 y => decide (x ≤ y)

/-- The four bytes of an IPv4 address in decimal, separated by dots. -/
def dotted (bits : BitVec 32) : String :=
  ".".intercalate ([24, 16, 8, 0].map fun shift => toString ((bits.toNat >>> shift) % 256))

/-- The eight 16-bit groups of an IPv6 address, first group first. -/
def groups (bits : BitVec 128) : List Nat :=
  [112, 96, 80, 64, 48, 32, 16, 0].map fun shift => (bits.toNat >>> shift) % 65536

/-- Hexadecimal groups separated by colons. -/
def joinGroups (gs : List Nat) : String :=
  ":".intercalate (gs.map fun g => String.ofList (Nat.toDigits 16 g))

/-- Length of the run of zeros a list starts with. -/
def zeroRun (gs : List Nat) : Nat := (gs.takeWhile (· == 0)).length

/-- Start and length of the longest run of zeros, the first one when several are longest. -/
def longestZeroRun : List Nat → Nat × Nat
  | [] => (0, 0)
  | g :: gs =>
    let here := zeroRun (g :: gs)
    let (start, len) := longestZeroRun gs
    if len ≤ here then (0, here) else (start + 1, len)

/-- The text of an IPv6 address. -/
def compressed (bits : BitVec 128) : String :=
  let gs := groups bits
  if gs.take 6 = [0, 0, 0, 0, 0, 65535] then
    "::ffff:" ++ dotted (bits.setWidth 32)
  else
    let (start, len) := longestZeroRun gs
    if 1 < len then joinGroups (gs.take start) ++ "::" ++ joinGroups (gs.drop (start + len))
    else joinGroups gs

/-- The text of an address. -/
def text : IpAddress → String
  | v4 bits => dotted bits
  | v6 bits => compressed bits

theorem le_antisymm {a b : IpAddress} (hab : le a b = true) (hba : le b a = true) : a = b := by
  cases a <;> cases b <;> simp [le] at hab hba ⊢
  · exact BitVec.le_antisymm hab hba
  · exact BitVec.le_antisymm hab hba

theorem le_total (a b : IpAddress) : le a b = true ∨ le b a = true := by
  cases a <;> cases b <;> simp [le]
  · exact BitVec.le_total _ _
  · exact BitVec.le_total _ _

end IpAddress

/-- One end of a TCP connection. -/
structure Endpoint where
  address : IpAddress
  port : UInt16
deriving DecidableEq, Repr

namespace Endpoint

/-- Addresses decide, ports break ties. -/
def le (x y : Endpoint) : Bool :=
  if x.address = y.address then decide (x.port ≤ y.port) else x.address.le y.address

/-- Address and port separated by a colon. -/
def text (e : Endpoint) : String := e.address.text ++ ":" ++ toString e.port.toNat

/-- The form used where the colons of an address would run into the port: IPv6 in brackets. -/
def bracketed (e : Endpoint) : String :=
  match e.address with
  | .v4 _ => e.text
  | .v6 _ => "[" ++ e.address.text ++ "]:" ++ toString e.port.toNat

theorem le_refl (e : Endpoint) : le e e = true := by
  simp [le]

theorem le_total (x y : Endpoint) : le x y = true ∨ le y x = true := by
  by_cases h : x.address = y.address
  · simp [le, h]
    exact UInt16.le_total _ _
  · have h' : ¬ y.address = x.address := fun e => h e.symm
    simpa [le, h, h'] using IpAddress.le_total x.address y.address

theorem le_antisymm {x y : Endpoint} (hxy : le x y = true) (hyx : le y x = true) : x = y := by
  obtain ⟨a, p⟩ := x
  obtain ⟨b, q⟩ := y
  by_cases h : a = b
  · subst h
    simp [le] at hxy hyx
    simp [UInt16.le_antisymm hxy hyx]
  · have h' : ¬ b = a := fun e => h e.symm
    simp only [le, h, h', if_false] at hxy hyx
    exact absurd (IpAddress.le_antisymm hxy hyx) h

end Endpoint

end TcpCapture
