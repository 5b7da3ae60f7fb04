import TcpCapture.Bytes.Sha1
import TcpCapture.Sequence

/-!
# Tokens

A host's key names its side of a multipath connection by two parts of its hash: the token, which
joining subflows quote, and the number of its first data byte.

`TokenIndex` finds connections by token.  A token that two connections share stays with the first.
-/

namespace TcpCapture

/-- Short name of one side of a multipath connection. -/
abbrev Token := BitVec 32

/-- The hash of a key. -/
def keyDigest (key : BitVec 64) : BitVec 160 := Sha1.digest (BigEndian.toBytes 8 key.toNat)

/-- The most significant 32 bits of a key's hash. -/
def keyToken (key : BitVec 64) : Token := (keyDigest key).extractLsb' 128 32

/-- The least significant 64 bits of a key's hash: the initial data sequence number. -/
def keyInitialDsn (key : BitVec 64) : DataSeq := (keyDigest key).setWidth 64

/-- Connections by token. -/
structure TokenIndex where
  entries : List (Token × Nat) := []
deriving DecidableEq, Repr

namespace TokenIndex

/-- The connection that owns a token. -/
def get? (t : TokenIndex) (token : Token) : Option Nat := t.entries.lookup token

/-- Gives a token to a connection, unless another one owns it. -/
def register (t : TokenIndex) (token : Token) (id : Nat) : TokenIndex :=
  match t.get? token with
  | some _ => t
  | none => ⟨t.entries ++ [(token, id)]⟩

/-- A connection owns a token. -/
def owns (t : TokenIndex) (token : Token) (id : Nat) : Bool := t.get? token == some id

/-- How many tokens are owned. -/
def size (t : TokenIndex) : Nat := t.entries.length

/-- No token is owned. -/
def isEmpty (t : TokenIndex) : Bool := t.entries.isEmpty

end TokenIndex

end TcpCapture
