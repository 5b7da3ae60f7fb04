import TcpCapture.Bytes.BigEndian

/-!
# The Secure Hash Algorithm, 160 bits

Multipath connections are named by hashes of their keys.  The message is padded to whole blocks of
64 bytes, each block is expanded to eighty words, and eighty rounds mix them into a chaining value
of five words, which after the last block is the digest.
-/

namespace TcpCapture.Sha1

/-- The unit of the computation. -/
abbrev Word := BitVec 32

/-- The five words carried from block to block. -/
structure Chain where
  a : Word
  b : Word
  c : Word
  d : Word
  e : Word
deriving DecidableEq, Repr

/-- The chaining value before the first block. -/
def Chain.initial : Chain := ⟨0x67452301, 0xefcdab89, 0x98badcfe, 0x10325476, 0xc3d2e1f0⟩

/-- The message, a one bit, zeros up to eight bytes short of a whole block, and the message length
in bits. -/
def pad (message : List UInt8) : List UInt8 :=
  message ++ 0x80 :: List.replicate ((119 - message.length % 64) % 64) 0 ++
    BigEndian.toBytes 8 (8 * message.length)

/-- Cuts a list into pieces of `n`, dropping an incomplete last piece. -/
def chunks {α : Type} (n : Nat) (xs : List α) : List (List α) :=
  (List.range (xs.length / n)).map fun i => (xs.drop (n * i)).take n

/-- The next word of the expansion, from the sixteen before it, newest first. -/
def expand (recent : List Word) : Word :=
  (recent.getD 2 0 ^^^ recent.getD 7 0 ^^^ recent.getD 13 0 ^^^ recent.getD 15 0).rotateLeft 1

/-- The expansion by `n` words of words given newest first. -/
def schedule : Nat → List Word → List Word
  | 0, words => words
  | n + 1, words => schedule n (expand words :: words)

/-- The mixing function and constant of a round. -/
def mix (round : Nat) (b c d : Word) : Word × Word :=
  if round < 20 then ((b &&& c) ||| (~~~b &&& d), 0x5a827999)
  else if round < 40 then (b ^^^ c ^^^ d, 0x6ed9eba1)
  else if round < 60 then ((b &&& c) ||| (b &&& d) ||| (c &&& d), 0x8f1bbcdc)
  else (b ^^^ c ^^^ d, 0xca62c1d6)

/-- One round with its word of the expansion. -/
def step (s : Chain) (round : Nat) (word : Word) : Chain :=
  let (f, k) := mix round s.b s.c s.d
  ⟨s.a.rotateLeft 5 + f + s.e + k + word, s.a, s.b.rotateLeft 30, s.c, s.d⟩

/-- All rounds of one block. -/
def compress (s : Chain) (block : List UInt8) : Chain :=
  let words := (chunks 4 block).map fun bytes => BitVec.ofNat 32 (BigEndian.ofBytes bytes)
  let expanded := (schedule 64 words.reverse).reverse
  let t := (expanded.zipIdx).foldl (fun s (word, round) => step s round word) s
  ⟨s.a + t.a, s.b + t.b, s.c + t.c, s.d + t.d, s.e + t.e⟩

/-- The digest of a message, first byte most significant. -/
def digest (message : List UInt8) : BitVec 160 :=
  let s := (chunks 64 (pad message)).foldl compress Chain.initial
  s.a ++ s.b ++ s.c ++ s.d ++ s.e

end TcpCapture.Sha1
