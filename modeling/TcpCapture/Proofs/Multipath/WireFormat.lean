import Mathlib.Algebra.Group.Nat.Defs
import TcpCapture.Multipath.Option

/-!
# Multipath options on the wire

The sub-options of kind 30, as senders lay them out in the body of that option, and how they are read back.

## Main definitions

* `WireOption` — a sub-option in one of the forms it is sent in
* `WireOption.body`, `WireOption.value` — its bytes, and what it says
* `WireOption.decode_body` — the bytes are read as what the option says

**What is lost.**  Codes that authenticate a joining host have a place in the layout, but none in what is
read.  The last form of MP_JOIN holds nothing else.

**One equation for each read.**  A read at the front of its own bytes yields what was written there and goes on
behind them.  A sub-option is read back by a chain of such steps, and an optional field only stands at the
end of a body, so that whether it is there can be told from whether anything is left.
-/

namespace TcpCapture

namespace BigEndian

theorem capacity_eq (n : Nat) : capacity n = 2 ^ (8 * n) := by
  induction n with
  | zero => rfl
  | succ n ih => rw [capacity, ih, Nat.mul_succ, Nat.pow_add, Nat.mul_comm]

end BigEndian

open BigEndian (toBytes)

namespace Read

variable {α β : Type}

theorem bind_of_eq {read : Read α} {c c' : Cursor} {a : α} (h : read c = some (a, c'))
    (f : α → Read β) : (read >>= f) c = f a c' := by
  show (read c).bind (fun p => f p.1 p.2) = _
  rw [h]
  rfl

theorem map_of_eq {read : Read α} {c c' : Cursor} {a : α} (h : read c = some (a, c'))
    (f : α → β) : (f <$> read) c = some (f a, c') := by
  show (read c).bind (fun p => some (f p.1, p.2)) = _
  rw [h]
  rfl

/-- A choice of the first step is a choice of the whole. -/
theorem ite_bind (b : Bool) (read read' : Read α) (f : α → Read β) :
    (if b = true then read >>= f else read' >>= f) = (if b = true then read else read') >>= f := by
  cases b <;> rfl

theorem value?_of_eq {read : Read α} {field : List UInt8} {c : Cursor} {a : α}
    (h : read ⟨field⟩ = some (a, c)) : value? read field = some a := by
  rw [value?, h]
  rfl

/-- The value of two reads is that of the second one, from where the first one stopped. -/
theorem value?_bind_of_eq {read : Read α} {field rest : List UInt8} {a : α}
    (h : read ⟨field⟩ = some (a, ⟨rest⟩)) (f : α → Read β) :
    value? (read >>= f) field = value? (f a) rest := by
  rw [value?, bind_of_eq h]
  rfl

theorem byte_cons (b : UInt8) (rest : List UInt8) : byte ⟨b :: rest⟩ = some (b, ⟨rest⟩) := rfl

/-- A number is read back from the front of any input. -/
theorem uint_append {w n : Nat} (width : w = 8 * n) (v : BitVec w) (rest : List UInt8) :
    uint n ⟨toBytes n v.toNat ++ rest⟩ = some (v.toNat, ⟨rest⟩) := by
  rw [uint_toBytes_append, BigEndian.capacity_eq, ← width, Nat.mod_eq_of_lt v.isLt]

theorem uint_toBytes {w n : Nat} (width : w = 8 * n) (v : BitVec w) :
    uint n ⟨toBytes n v.toNat⟩ = some (v.toNat, ⟨[]⟩) := by
  rw [← List.append_nil (toBytes n v.toNat), uint_append width]

theorem skip_append {n : Nat} (front rest : List UInt8) (len : front.length = n) :
    skip n ⟨front ++ rest⟩ = some ((), ⟨rest⟩) := by
  subst len
  exact bind_of_eq (bytes_append front rest) _

theorem optional_of_eq {read : Read α} {c c' : Cursor} {a : α} (h : read c = some (a, c')) :
    optional read c = some (some a, c') := by
  rw [optional_eq_some, h]

theorem optional_of_none {read : Read α} {c : Cursor} (h : read c = none) :
    optional read c = some (none, c) := by
  rw [optional_eq_some, h]

end Read

/-- A number of two bytes. -/
def shortBytes (v : UInt16) : List UInt8 := toBytes 2 v.toNat

/-- A number of two bytes, if it is sent. -/
def portBytes (v : Option UInt16) : List UInt8 := (v.map shortBytes).getD []

/-- A key, if it is sent. -/
def keyBytes (key : Option (BitVec 64)) : List UInt8 := (key.map fun k => toBytes 8 k.toNat).getD []

namespace Read

theorem uint_shortBytes_append (v : UInt16) (rest : List UInt8) :
    uint 2 ⟨shortBytes v ++ rest⟩ = some (v.toNat, ⟨rest⟩) :=
  uint_append (n := 2) rfl v.toBitVec rest

/-- A number of two bytes that may be missing at the end. -/
theorem optional_portBytes (v : Option UInt16) :
    optional (uint 2) ⟨portBytes v⟩ = some (v.map (·.toNat), ⟨[]⟩) := by
  cases v with
  | none => rfl
  | some v => exact optional_of_eq (uint_toBytes (n := 2) rfl v.toBitVec)

theorem map_ofNat_toNat (v : Option UInt16) : (v.map (·.toNat)).map UInt16.ofNat = v := by
  cases v with
  | none => rfl
  | some v => exact congrArg some UInt16.ofNat_toNat

end Read

open Read

/-! ### Data sequence signals -/

namespace WireDataSeq

/-- All eight bytes are sent. -/
def isWide : WireDataSeq → Bool
  | short _ => false
  | wide _ => true

/-- The number in four or eight bytes. -/
def bytes : WireDataSeq → List UInt8
  | short low => toBytes 4 low.toNat
  | wide value => toBytes 8 value.toNat

theorem readDataSeq_append (d : WireDataSeq) (rest : List UInt8) :
    MultipathOption.readDataSeq d.isWide ⟨d.bytes ++ rest⟩ = some (d, ⟨rest⟩) := by
  cases d with
  | short low =>
      rw [isWide, bytes, MultipathOption.readDataSeq, if_neg Bool.false_ne_true,
        bind_of_eq (uint_append (n := 4) rfl low rest), BitVec.ofNat_toNat, BitVec.setWidth_eq]
      rfl
  | wide value =>
      rw [isWide, bytes, MultipathOption.readDataSeq, if_pos rfl,
        bind_of_eq (uint_append (n := 8) rfl value rest), BitVec.ofNat_toNat, BitVec.setWidth_eq]
      rfl

end WireDataSeq

/-- A mapping as it is sent. -/
structure WireMapping where
  dsn : WireDataSeq
  ssn : Seq
  length : UInt16
  checksum : Option UInt16 := none
deriving DecidableEq, Repr

namespace WireMapping

/-- What the mapping says; nobody has verified its checksum yet. -/
def value (m : WireMapping) : DssMapping :=
  { dsn := m.dsn, ssn := m.ssn, length := m.length, checksum := m.checksum }

/-- The mapping in its place at the end of a signal. -/
def bytes (m : WireMapping) : List UInt8 :=
  m.dsn.bytes ++ (toBytes 4 m.ssn.toNat ++ (shortBytes m.length ++ portBytes m.checksum))

theorem readMapping_bytes (m : WireMapping) :
    MultipathOption.readMapping m.dsn.isWide ⟨m.bytes⟩ = some (m.value, ⟨[]⟩) := by
  unfold MultipathOption.readMapping bytes
  rw [bind_of_eq (m.dsn.readDataSeq_append _), bind_of_eq (uint_append (n := 4) rfl m.ssn _),
    bind_of_eq (uint_shortBytes_append m.length _), bind_of_eq (optional_portBytes m.checksum),
    BitVec.ofNat_toNat, BitVec.setWidth_eq, UInt16.ofNat_toNat, map_ofNat_toNat]
  rfl

end WireMapping

/-- A data sequence signal as it is sent. -/
structure WireSignal where
  dataAck : Option WireDataSeq := none
  mapping : Option WireMapping := none
  dataFin : Bool := false
deriving DecidableEq, Repr

namespace WireSignal

/-- What the signal says. -/
def value (s : WireSignal) : Dss :=
  { dataAck := s.dataAck, mapping := s.mapping.map (·.value), dataFin := s.dataFin }

/-- The five flags of a signal, lowest first: the acknowledgment is there, and wide; the mapping is there,
and its number wide; the data ends. -/
def flagByte (acks wideAck maps wideMap ends : Bool) : UInt8 :=
  .ofNat (acks.toNat + 2 * wideAck.toNat + 4 * maps.toNat + 8 * wideMap.toNat + 16 * ends.toNat)

theorem testBit_flagByte (acks wideAck maps wideMap ends : Bool) :
    let flags := (flagByte acks wideAck maps wideMap ends).toNat
    flags.testBit 0 = acks ∧ flags.testBit 1 = wideAck ∧ flags.testBit 2 = maps ∧
      flags.testBit 3 = wideMap ∧ flags.testBit 4 = ends := by
  revert acks wideAck maps wideMap ends
  decide

def flags (s : WireSignal) : UInt8 :=
  flagByte s.dataAck.isSome (s.dataAck.any (·.isWide)) s.mapping.isSome
    (s.mapping.any (·.dsn.isWide)) s.dataFin

/-- The signal behind its subtype. -/
def bytes (s : WireSignal) : List UInt8 :=
  s.flags :: ((s.dataAck.map (·.bytes)).getD [] ++ (s.mapping.map (·.bytes)).getD [])

theorem readDataAck_append (d : Option WireDataSeq) (rest : List UInt8) :
    (if d.isSome = true then some <$> MultipathOption.readDataSeq (d.any (·.isWide))
      else pure none) ⟨(d.map (·.bytes)).getD [] ++ rest⟩ = some (d, ⟨rest⟩) := by
  cases d with
  | none => rfl
  | some d => exact map_of_eq (d.readDataSeq_append rest) some

theorem readMapping?_bytes (m : Option WireMapping) :
    (if m.isSome = true then some <$> MultipathOption.readMapping (m.any (·.dsn.isWide))
      else pure none) ⟨(m.map (·.bytes)).getD []⟩ = some (m.map (·.value), ⟨[]⟩) := by
  cases m with
  | none => rfl
  | some m => exact map_of_eq m.readMapping_bytes some

theorem readDss_bytes (s : WireSignal) :
    MultipathOption.readDss ⟨s.bytes⟩ = some (.dss s.value, ⟨[]⟩) := by
  obtain ⟨acks, wideAck, maps, wideMap, ends⟩ := testBit_flagByte s.dataAck.isSome
    (s.dataAck.any (·.isWide)) s.mapping.isSome (s.mapping.any (·.dsn.isWide)) s.dataFin
  unfold MultipathOption.readDss bytes
  rw [bind_of_eq (byte_cons s.flags _)]
  unfold flags
  dsimp only
  rw [acks, wideAck, maps, wideMap, ends, ite_bind, bind_of_eq (readDataAck_append s.dataAck _),
    ite_bind, bind_of_eq (readMapping?_bytes s.mapping)]
  rfl

end WireSignal

/-! ### Options -/

/-- A multipath option in one of the forms it is sent in. -/
inductive WireOption where
  /-- MP_CAPABLE without a key, with one, or with both. -/
  | capable (version : Fin 16) (flags : UInt8) (senderKey receiverKey : Option (BitVec 64))
      (inTurn : receiverKey.isSome = true → senderKey.isSome = true)
  /-- MP_JOIN on a SYN. -/
  | joinRequest (backup : Bool) (addressId : UInt8) (token nonce : BitVec 32)
  /-- MP_JOIN on the answer, with the front of a code. -/
  | joinAnswer (backup : Bool) (addressId : UInt8) (code : BitVec 64) (nonce : BitVec 32)
  /-- MP_JOIN on the last acknowledgment, with a whole code. -/
  | joinConfirmation (code : BitVec 160)
  | dss (signal : WireSignal)
  | addAddress (addressId : UInt8) (address : IpAddress) (port : Option UInt16)
  /-- As many addresses as the length byte has room for. -/
  | removeAddress (addressIds : List UInt8) (fits : addressIds.length ≤ 252)
  | priority (backup : Bool) (addressId : Option UInt8)
  | fail (dsn : DataSeq)
  | fastClose (key : BitVec 64)

namespace WireOption

/-- What the option says. -/
def value : WireOption → MultipathOption
  | capable version flags senderKey receiverKey _ =>
    .capable { version := .ofNat version, flags, senderKey, receiverKey }
  | joinRequest backup addressId token nonce =>
    .join { backup, addressId, token := some token, nonce := some nonce }
  | joinAnswer backup addressId _ nonce => .join { backup, addressId, nonce := some nonce }
  | joinConfirmation _ => .join {}
  | dss signal => .dss signal.value
  | addAddress addressId address port => .addAddress addressId address port
  | removeAddress addressIds _ => .removeAddress addressIds
  | priority backup addressId => .priority backup addressId
  | fail dsn => .fail dsn
  | fastClose key => .fastClose key

/-- The version of the Internet Protocol that an address is of. -/
def addressVersion : IpAddress → Fin 16
  | .v4 _ => 4
  | .v6 _ => 6

/-- The bytes of an address. -/
def addressBytes : IpAddress → List UInt8
  | .v4 bits => toBytes 4 bits.toNat
  | .v6 bits => toBytes 16 bits.toNat

/-- Which kind of option it is: the high half of its first byte. -/
def subtype : WireOption → Fin 16
  | capable .. => 0
  | joinRequest .. | joinAnswer .. | joinConfirmation _ => 1
  | dss _ => 2
  | addAddress .. => 3
  | removeAddress .. => 4
  | priority .. => 5
  | fail _ => 6
  | fastClose _ => 7

/-- The low half of its first byte: a version, a flag, or nothing. -/
def low : WireOption → Fin 16
  | capable version .. => version
  | joinRequest backup .. | joinAnswer backup .. | priority backup _ => if backup then 1 else 0
  | addAddress _ address _ => addressVersion address
  | joinConfirmation _ | dss _ | removeAddress .. | fail _ | fastClose _ => 0

/-- Its bytes behind the first one; those that are reserved are 0. -/
def tail : WireOption → List UInt8
  | capable _ flags senderKey receiverKey _ => flags :: (keyBytes senderKey ++ keyBytes receiverKey)
  | joinRequest _ addressId token nonce =>
    addressId :: (toBytes 4 token.toNat ++ toBytes 4 nonce.toNat)
  | joinAnswer _ addressId code nonce => addressId :: (toBytes 8 code.toNat ++ toBytes 4 nonce.toNat)
  | joinConfirmation code => 0 :: toBytes 20 code.toNat
  | dss signal => signal.bytes
  | addAddress addressId address port => addressId :: (addressBytes address ++ portBytes port)
  | removeAddress addressIds _ => addressIds
  | priority _ addressId => addressId.toList
  | fail dsn => 0 :: toBytes 8 dsn.toNat
  | fastClose key => 0 :: toBytes 8 key.toNat

/-- A first byte, of two halves. -/
def lead (high low : Fin 16) : UInt8 := .ofNat (16 * high + low)

/-- The body of the option, as kind 30 has it. -/
def body (o : WireOption) : List UInt8 := lead o.subtype o.low :: o.tail

theorem high_lead (high low : Fin 16) : (lead high low / 16).toNat = high := by
  revert high low
  decide

theorem low_lead (high low : Fin 16) : lead high low % 16 = .ofNat low := by
  revert high low
  decide

/-- The flag of a first byte is its lowest bit. -/
theorem testBit_lead (high : Fin 16) (flag : Bool) :
    (lead high (if flag then 1 else 0)).toNat.testBit 0 = flag := by
  revert high flag
  decide

/-! ### Reading back -/

open MultipathOption

theorem readKey?_append (key : BitVec 64) (rest : List UInt8) :
    readKey? ⟨toBytes 8 key.toNat ++ rest⟩ = some (some key, ⟨rest⟩) := by
  rw [readKey?, bind_of_eq (optional_of_eq (uint_append (n := 8) rfl key rest)), Option.map_some,
    BitVec.ofNat_toNat, BitVec.setWidth_eq]
  rfl

theorem readKey?_nil : readKey? ⟨[]⟩ = some (none, ⟨[]⟩) := by
  rw [readKey?, bind_of_eq (optional_of_none rfl)]
  rfl

theorem readKey?_keyBytes (key : Option (BitVec 64)) :
    readKey? ⟨keyBytes key⟩ = some (key, ⟨[]⟩) := by
  cases key with
  | none => exact readKey?_nil
  | some key =>
      have read := readKey?_append key []
      rwa [List.append_nil] at read

/-- A key that is missing has no other one behind it. -/
theorem readKey?_keyBytes_append (senderKey receiverKey : Option (BitVec 64))
    (inTurn : receiverKey.isSome = true → senderKey.isSome = true) :
    readKey? ⟨keyBytes senderKey ++ keyBytes receiverKey⟩ =
      some (senderKey, ⟨keyBytes receiverKey⟩) := by
  cases senderKey with
  | some key => exact readKey?_append key _
  | none =>
      cases receiverKey with
      | none => exact readKey?_nil
      | some key => cases inTurn rfl

/-- The three forms of MP_JOIN are told apart by their lengths. -/
theorem readJoin_request (first addressId : UInt8) (token nonce : BitVec 32) :
    value? (readJoin first 10) (addressId :: (toBytes 4 token.toNat ++ toBytes 4 nonce.toNat)) =
      some (.join { backup := first.toNat.testBit 0, addressId, token := some token
                    nonce := some nonce }) := by
  rw [readJoin, value?_bind_of_eq (byte_cons _ _), if_pos rfl,
    value?_bind_of_eq (uint_append (n := 4) rfl token _),
    value?_bind_of_eq (uint_toBytes (n := 4) rfl nonce), BitVec.ofNat_toNat, BitVec.ofNat_toNat,
    BitVec.setWidth_eq, BitVec.setWidth_eq]
  rfl

theorem readJoin_answer (first addressId : UInt8) (code : BitVec 64) (nonce : BitVec 32) :
    value? (readJoin first 14) (addressId :: (toBytes 8 code.toNat ++ toBytes 4 nonce.toNat)) =
      some (.join { backup := first.toNat.testBit 0, addressId, nonce := some nonce }) := by
  rw [readJoin, value?_bind_of_eq (byte_cons _ _), if_neg (by decide), if_pos rfl,
    value?_bind_of_eq (skip_append _ _ (BigEndian.length_toBytes 8 _)),
    value?_bind_of_eq (uint_toBytes (n := 4) rfl nonce), BitVec.ofNat_toNat, BitVec.setWidth_eq]
  rfl

theorem readAddress_append (address : IpAddress) (rest : List UInt8) :
    readAddress (.ofNat (addressVersion address)) ⟨addressBytes address ++ rest⟩ =
      some (address, ⟨rest⟩) := by
  cases address with
  | v4 bits =>
      rw [show UInt8.ofNat (addressVersion (.v4 bits)) = 4 from rfl, readAddress, if_pos rfl,
        addressBytes, bind_of_eq (uint_append (n := 4) rfl bits rest), BitVec.ofNat_toNat,
        BitVec.setWidth_eq]
      rfl
  | v6 bits =>
      rw [show UInt8.ofNat (addressVersion (.v6 bits)) = 6 from rfl, readAddress,
        if_neg (by decide), if_pos rfl, addressBytes,
        bind_of_eq (uint_append (n := 16) rfl bits rest), BitVec.ofNat_toNat, BitVec.setWidth_eq]
      rfl

/-- The eight bytes that MP_FAIL and MP_FASTCLOSE carry behind a reserved one. -/
theorem value?_skip_uint {α : Type} (v : BitVec 64) (f : BitVec 64 → α) :
    value? (do skip 1; return f (.ofNat 64 (← uint 8))) (0 :: toBytes 8 v.toNat) = some (f v) := by
  have reserved : skip 1 ⟨0 :: toBytes 8 v.toNat⟩ = some ((), ⟨toBytes 8 v.toNat⟩) :=
    skip_append [0] _ rfl
  rw [value?_bind_of_eq reserved, value?_bind_of_eq (uint_toBytes (n := 8) rfl v),
    BitVec.ofNat_toNat, BitVec.setWidth_eq]
  rfl

/-- **A multipath option is read back** from the body it is laid out in. -/
theorem decode_body (o : WireOption) : MultipathOption.decode o.body = some o.value := by
  rw [MultipathOption.decode, readAny, body, value?_bind_of_eq (byte_cons _ _), high_lead]
  cases o with
  | capable version flags senderKey receiverKey inTurn =>
      show value? (readCapable (lead 0 version)) (flags :: _) = _
      rw [readCapable, value?_bind_of_eq (byte_cons _ _),
        value?_bind_of_eq (readKey?_keyBytes_append _ _ inTurn),
        value?_bind_of_eq (readKey?_keyBytes _), low_lead]
      rfl
  | joinRequest backup addressId token nonce =>
      have len : (tail (joinRequest backup addressId token nonce)).length + 1 = 10 := by
        simp [tail]
      show value? (readJoin (lead 1 _) ((tail _).length + 1)) (tail _) = _
      rw [len, tail, readJoin_request, low, testBit_lead]
      rfl
  | joinAnswer backup addressId code nonce =>
      have len : (tail (joinAnswer backup addressId code nonce)).length + 1 = 14 := by
        simp [tail]
      show value? (readJoin (lead 1 _) ((tail _).length + 1)) (tail _) = _
      rw [len, tail, readJoin_answer, low, testBit_lead]
      rfl
  | joinConfirmation code =>
      have len : (tail (joinConfirmation code)).length + 1 = 22 := by
        simp [tail]
      show value? (readJoin (lead 1 0) ((tail _).length + 1)) (0 :: _) = _
      rw [len]
      rfl
  | dss signal => exact value?_of_eq signal.readDss_bytes
  | addAddress addressId address port =>
      show value? (readAddAddress (lead 3 (addressVersion address))) (addressId :: _) = _
      rw [readAddAddress, value?_bind_of_eq (byte_cons _ _), low_lead,
        value?_bind_of_eq (readAddress_append address _),
        value?_bind_of_eq (optional_portBytes port), map_ofNat_toNat]
      rfl
  | removeAddress addressIds fits => rfl
  | priority backup addressId =>
      show value? (do
        return MultipathOption.priority ((lead 5 (if backup then 1 else 0)).toNat.testBit 0)
          (← optional byte)) addressId.toList = _
      rw [testBit_lead]
      cases addressId <;> rfl
  | fail dsn => exact value?_skip_uint dsn MultipathOption.fail
  | fastClose key => exact value?_skip_uint key MultipathOption.fastClose

/-- A signal with a short acknowledgment and a mapping whose number is wide. -/
example : body (.dss
    { dataAck := some (.short 500)
      mapping := some { dsn := .wide 9000, ssn := 1, length := 1400, checksum := some 0xbeef } }) =
      [0x20, 0x0d, 0, 0, 0x01, 0xf4, 0, 0, 0, 0, 0, 0, 0x23, 0x28, 0, 0, 0, 1, 0x05, 0x78,
        0xbe, 0xef] := by decide

/-! ### Lengths -/

theorem length_portBytes_le (v : Option UInt16) : (portBytes v).length ≤ 2 := by
  cases v with
  | none => exact Nat.zero_le 2
  | some v => exact Nat.le_of_eq (BigEndian.length_toBytes 2 _)

theorem length_keyBytes_le (key : Option (BitVec 64)) : (keyBytes key).length ≤ 8 := by
  cases key with
  | none => exact Nat.zero_le 8
  | some key => exact Nat.le_of_eq (BigEndian.length_toBytes 8 _)

theorem length_dataSeq_le (d : WireDataSeq) : d.bytes.length ≤ 8 := by
  cases d <;> simp [WireDataSeq.bytes]

theorem length_address_le (address : IpAddress) : (addressBytes address).length ≤ 16 := by
  cases address <;> simp [addressBytes]

theorem length_mapping_le (m : WireMapping) : m.bytes.length ≤ 16 := by
  have dsn := length_dataSeq_le m.dsn
  have checksum := length_portBytes_le m.checksum
  simp only [WireMapping.bytes, shortBytes, List.length_append, BigEndian.length_toBytes]
  omega

theorem length_signal_le (s : WireSignal) : s.bytes.length ≤ 25 := by
  have dataAck : ((s.dataAck.map (·.bytes)).getD []).length ≤ 8 := by
    cases s.dataAck with
    | none => exact Nat.zero_le 8
    | some d => exact length_dataSeq_le d
  have mapping : ((s.mapping.map (·.bytes)).getD []).length ≤ 16 := by
    cases s.mapping with
    | none => exact Nat.zero_le 16
    | some m => exact length_mapping_le m
  simp only [WireSignal.bytes, List.length_cons, List.length_append]
  omega

/-- The body leaves room for a kind and a length byte. -/
theorem length_body_le (o : WireOption) : o.body.length ≤ 253 := by
  rw [body, List.length_cons]
  cases o with
  | capable version flags senderKey receiverKey inTurn =>
      have sender := length_keyBytes_le senderKey
      have receiver := length_keyBytes_le receiverKey
      simp only [tail, List.length_cons, List.length_append]
      omega
  | dss signal =>
      have := length_signal_le signal
      rw [tail]
      omega
  | addAddress addressId address port =>
      have := length_address_le address
      have := length_portBytes_le port
      simp only [tail, List.length_cons, List.length_append]
      omega
  | removeAddress addressIds fits => exact Nat.succ_le_succ fits
  | priority backup addressId => cases addressId <;> exact of_decide_eq_true rfl
  | _ => simp [tail]

end WireOption

end TcpCapture
