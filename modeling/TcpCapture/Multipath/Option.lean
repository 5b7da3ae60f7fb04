import TcpCapture.Address
import TcpCapture.Sequence
import TcpCapture.Bytes.Cursor

/-!
# Multipath options

The sub-options of TCP option kind 30, and how each is read from the body of that option.

## Main definitions

* `MpCapable`, `MpJoin`, `Dss` — the options that open a connection, join a subflow and place data
* `MultipathOption` — any of the eight sub-options
* `MultipathOption.decode` — the sub-option a body holds, if it is whole

**Missing parts.** Keys, tokens and checksums that a body is too short for are absent; a body too
short for anything else is no option at all.
-/

namespace TcpCapture

/-- How two hosts authenticate subflows. -/
inductive HmacAlgorithm where
  | sha1
deriving DecidableEq, Repr

/-- Opens a multipath connection, answers the opening, or echoes both keys. -/
structure MpCapable where
  version : UInt8 := 0
  flags : UInt8 := 0
  senderKey : Option (BitVec 64) := none
  receiverKey : Option (BitVec 64) := none
deriving DecidableEq, Repr

namespace MpCapable

/-- The algorithm selected: bit H is HMAC-SHA1. -/
def hmac (c : MpCapable) : Option HmacAlgorithm :=
  if c.flags.toNat.testBit 0 then some .sha1 else none

/-- Bit A: data sequence mappings carry checksums. -/
def checksumRequired (c : MpCapable) : Bool := c.flags.toNat.testBit 7

end MpCapable

/-- Joins a subflow to a connection.  Only the form on a SYN carries the token of that connection;
the form on the last acknowledgment carries neither token nor nonce. -/
structure MpJoin where
  backup : Bool := false
  addressId : UInt8 := 0
  token : Option (BitVec 32) := none
  nonce : Option (BitVec 32) := none
deriving DecidableEq, Repr

/-- A data sequence number as it stands on the wire, whole or only its low half. -/
inductive WireDataSeq where
  | short (low : BitVec 32)
  | wide (value : DataSeq)
deriving DecidableEq, Repr

/-- Places subflow bytes in the data sequence space. -/
structure DssMapping where
  dsn : WireDataSeq
  /-- Subflow sequence number, relative to the start of the subflow. -/
  ssn : Seq
  /-- Length in bytes; zero announces an infinite mapping. -/
  length : UInt16
  checksum : Option UInt16 := none
  /-- Set by a decoder that verified the checksum. -/
  checksumValid : Option Bool := none
deriving DecidableEq, Repr

/-- Data sequence signal: acknowledges data, maps it and ends it. -/
structure Dss where
  dataAck : Option WireDataSeq := none
  mapping : Option DssMapping := none
  dataFin : Bool := false
deriving DecidableEq, Repr

/-- One multipath sub-option. -/
inductive MultipathOption where
  | capable (option : MpCapable)
  | join (option : MpJoin)
  | dss (signal : Dss)
  | addAddress (addressId : UInt8) (address : IpAddress) (port : Option UInt16)
  | removeAddress (addressIds : List UInt8)
  | priority (backup : Bool) (addressId : Option UInt8)
  | fail (dsn : DataSeq)
  | fastClose (key : BitVec 64)
deriving DecidableEq, Repr

namespace MultipathOption

open Read

/-- A data sequence number in either width. -/
def readDataSeq (wide : Bool) : Read WireDataSeq :=
  if wide then return .wide (.ofNat 64 (← uint 8)) else return .short (.ofNat 32 (← uint 4))

/-- A key of eight bytes, if they are there. -/
def readKey? : Read (Option (BitVec 64)) := do
  return (← optional (uint 8)).map (BitVec.ofNat 64)

/-- The rest of an MP_CAPABLE option after its first byte. -/
def readCapable (first : UInt8) : Read MultipathOption := do
  let flags ← byte
  let senderKey ← readKey?
  let receiverKey ← readKey?
  return .capable { version := first % 16, flags, senderKey, receiverKey }

/-- The rest of an MP_JOIN option after its first byte.  The length of the whole body tells the
three forms apart: token and nonce, a truncated code and a nonce, or neither. -/
def readJoin (first : UInt8) (bodyLen : Nat) : Read MultipathOption := do
  let backup := first.toNat.testBit 0
  let addressId ← byte
  if bodyLen = 10 then
    let token ← uint 4
    let nonce ← uint 4
    return .join { backup, addressId, token := some (.ofNat 32 token),
                   nonce := some (.ofNat 32 nonce) }
  else if bodyLen = 14 then
    skip 8
    let nonce ← uint 4
    return .join { backup, addressId, nonce := some (.ofNat 32 nonce) }
  else
    return .join { backup, addressId }

/-- A mapping; its checksum is there when two more bytes are. -/
def readMapping (wide : Bool) : Read DssMapping := do
  let dsn ← readDataSeq wide
  let ssn ← uint 4
  let length ← uint 2
  let checksum ← optional (uint 2)
  return { dsn, ssn := .ofNat 32 ssn, length := .ofNat length,
           checksum := checksum.map UInt16.ofNat }

/-- The rest of a DSS option after its first byte. -/
def readDss : Read MultipathOption := do
  let flags := (← byte).toNat
  let dataAck ← if flags.testBit 0 then some <$> readDataSeq (flags.testBit 1) else pure none
  let mapping ← if flags.testBit 2 then some <$> readMapping (flags.testBit 3) else pure none
  return .dss { dataAck, mapping, dataFin := flags.testBit 4 }

/-- An address of a given version of the Internet Protocol. -/
def readAddress (version : UInt8) : Read IpAddress :=
  if version = 4 then return .v4 (.ofNat 32 (← uint 4))
  else if version = 6 then return .v6 (.ofNat 128 (← uint 16))
  else failure

/-- The rest of an ADD_ADDR option after its first byte, whose low half is the IP version. -/
def readAddAddress (first : UInt8) : Read MultipathOption := do
  let addressId ← byte
  let address ← readAddress (first % 16)
  let port ← optional (uint 2)
  return .addAddress addressId address (port.map UInt16.ofNat)

/-- Reads a sub-option; the high half of the first byte is its subtype. -/
def readAny (bodyLen : Nat) : Read MultipathOption := do
  let first ← byte
  match (first / 16).toNat with
  | 0 => readCapable first
  | 1 => readJoin first bodyLen
  | 2 => readDss
  | 3 => readAddAddress first
  | 4 => return .removeAddress (← all)
  | 5 => return .priority (first.toNat.testBit 0) (← optional byte)
  | 6 => do
    skip 1
    return .fail (.ofNat 64 (← uint 8))
  | 7 => do
    skip 1
    return .fastClose (.ofNat 64 (← uint 8))
  | _ => failure

/-- The sub-option in the body of an option of kind 30, if it is whole and of a known subtype.
Bytes left over are ignored. -/
def decode (body : List UInt8) : Option MultipathOption := value? (readAny body.length) body

end MultipathOption

end TcpCapture
