import Tlsn.Library.Bytes

/-!
The ChaCha stream cipher with a 64-bit block counter and a 64-bit stream number: its
block function for any number of double rounds, and the stream byte by byte.
-/

namespace ChaCha

abbrev Block := Vector UInt32 16

def rotl (x : UInt32) (n : UInt32) : UInt32 := x <<< n ||| x >>> (32 - n)

theorem index_lt (i : Fin 16) : i.val < 16 := i.isLt

def put (s : Block) (i : Fin 16) (word : UInt32) : Block := s.set i word (index_lt i)

def quarterRound (s : Block) (a b c d : Fin 16) : Block :=
  let s := put s a (s.get a + s.get b)
  let s := put s d (rotl (s.get d ^^^ s.get a) 16)
  let s := put s c (s.get c + s.get d)
  let s := put s b (rotl (s.get b ^^^ s.get c) 12)
  let s := put s a (s.get a + s.get b)
  let s := put s d (rotl (s.get d ^^^ s.get a) 8)
  let s := put s c (s.get c + s.get d)
  put s b (rotl (s.get b ^^^ s.get c) 7)

/-- A round on the columns and one on the diagonals. -/
def doubleRound (s : Block) : Block :=
  let s := quarterRound s 0 4 8 12
  let s := quarterRound s 1 5 9 13
  let s := quarterRound s 2 6 10 14
  let s := quarterRound s 3 7 11 15
  let s := quarterRound s 0 5 10 15
  let s := quarterRound s 1 6 11 12
  let s := quarterRound s 2 7 8 13
  quarterRound s 3 4 9 14

def doubleRounds : Nat → Block → Block
  | 0, s => s
  | n + 1, s => doubleRounds n (doubleRound s)

/-- A word from its bytes, lowest first. -/
def word (bytes : List UInt8) : UInt32 :=
  UInt32.ofNat (bytes.foldr (fun b n => b.toNat + 256 * n) 0)

def initial (seed : Vector UInt8 32) (stream : UInt64) (counter : Nat) : Block :=
  let key (i : Nat) := word ((seed.toList.drop (4 * i)).take 4)
  #v[0x61707865, 0x3320646e, 0x79622d32, 0x6b206574, key 0, key 1, key 2, key 3, key 4, key 5,
    key 6, key 7, UInt32.ofNat counter, UInt32.ofNat (counter / 2 ^ 32), stream.toUInt32,
    (stream >>> 32).toUInt32]

def block (rounds : Nat) (seed : Vector UInt8 32) (stream : UInt64) (counter : Nat) : Block :=
  let s := initial seed stream counter
  Vector.zipWith (· + ·) (doubleRounds rounds s) s

/-- Byte `n` of a stream. -/
def byte (rounds : Nat) (seed : Vector UInt8 32) (stream : UInt64) (n : Nat) : UInt8 :=
  let word := (block rounds seed stream (n / 64)).toList.getD (n % 64 / 4) 0
  UInt8.ofNat (word.toNat / 256 ^ (n % 4))

end ChaCha
