import Tlsn.Library.Bytes

/-!
SHA-256: the padding of a message and the blocks a compression function absorbs,
for any compression function, and the compression function of the standard.
-/

namespace Sha256

abbrev State := Vector UInt32 8

abbrev Block := Vector UInt8 64

def initialWords : Array UInt32 :=
  #[0x6a09e667, 0xbb67ae85, 0x3c6ef372, 0xa54ff53a, 0x510e527f, 0x9b05688c, 0x1f83d9ab, 0x5be0cd19]

theorem size_initialWords : initialWords.size = 8 := rfl

def initial : State := ⟨initialWords, size_initialWords⟩

/-- What follows a message of the given length: a one bit, zeros up to the last
eight bytes of a block, and there the number of bits. -/
def padding (total : Nat) : List UInt8 :=
  0x80 :: (List.replicate ((119 - total % 64) % 64) 0 ++ beBytes 8 (8 * total))

/-- The first block of a message. -/
def blockOf (msg : List UInt8) : Block := Vector.ofFn fun i => msg.getD i 0

def bytesOf (state : State) : Vector UInt8 32 :=
  ⟨(state.toList.flatMap fun word => beBytes 4 word.toNat).toArray, by simp⟩

section

variable (compress : State → Block → State)

/-- The state after the first `n` blocks of a message. -/
def absorb : Nat → State → List UInt8 → State
  | 0, state, _ => state
  | n + 1, state, msg => absorb n (compress state (blockOf msg)) (msg.drop 64)

/-- The digest of a message whose first `pos` bytes, whole blocks, led to the state. -/
def digestFrom (state : State) (pos : Nat) (msg : List UInt8) : Vector UInt8 32 :=
  let padded := msg ++ padding (pos + msg.length)
  bytesOf (absorb compress (padded.length / 64) state padded)

def digest (msg : List UInt8) : Vector UInt8 32 := digestFrom compress initial 0 msg

theorem blockOf_append {block : List UInt8} (h : block.length = 64) (msg : List UInt8) :
    blockOf (block ++ msg) = blockOf block := by
  apply Vector.ext
  intro i hi
  simp only [blockOf, Vector.getElem_ofFn, List.getD_eq_getElem?_getD]
  rw [List.getElem?_append_left (by omega)]

/-- A block in front of the message can be absorbed beforehand. -/
theorem digestFrom_append {block : List UInt8} (h : block.length = 64) (state : State) (pos : Nat)
    (msg : List UInt8) :
    digestFrom compress state pos (block ++ msg) =
      digestFrom compress (compress state (blockOf block)) (pos + 64) msg := by
  have hlen : pos + (block ++ msg).length = pos + 64 + msg.length := by
    rw [List.length_append, h]
    omega
  have hblocks (rest : List UInt8) : (block ++ rest).length / 64 = rest.length / 64 + 1 := by
    rw [List.length_append, h]
    omega
  simp only [digestFrom]
  rw [hlen, List.append_assoc, hblocks, absorb, blockOf_append h, List.drop_left' h]

end

section

def smallSigma0 (x : UInt32) : UInt32 :=
  (x >>> 7 ||| x <<< 25) ^^^ (x >>> 18 ||| x <<< 14) ^^^ x >>> 3

def smallSigma1 (x : UInt32) : UInt32 :=
  (x >>> 17 ||| x <<< 15) ^^^ (x >>> 19 ||| x <<< 13) ^^^ x >>> 10

def bigSigma0 (x : UInt32) : UInt32 :=
  (x >>> 2 ||| x <<< 30) ^^^ (x >>> 13 ||| x <<< 19) ^^^ (x >>> 22 ||| x <<< 10)

def bigSigma1 (x : UInt32) : UInt32 :=
  (x >>> 6 ||| x <<< 26) ^^^ (x >>> 11 ||| x <<< 21) ^^^ (x >>> 25 ||| x <<< 7)

def choose (x y z : UInt32) : UInt32 := (x &&& y) ^^^ (~~~x &&& z)

def majority (x y z : UInt32) : UInt32 := (x &&& y) ^^^ (x &&& z) ^^^ (y &&& z)

def roundConstants : List UInt32 := [
  0x428a2f98, 0x71374491, 0xb5c0fbcf, 0xe9b5dba5, 0x3956c25b, 0x59f111f1, 0x923f82a4, 0xab1c5ed5,
  0xd807aa98, 0x12835b01, 0x243185be, 0x550c7dc3, 0x72be5d74, 0x80deb1fe, 0x9bdc06a7, 0xc19bf174,
  0xe49b69c1, 0xefbe4786, 0x0fc19dc6, 0x240ca1cc, 0x2de92c6f, 0x4a7484aa, 0x5cb0a9dc, 0x76f988da,
  0x983e5152, 0xa831c66d, 0xb00327c8, 0xbf597fc7, 0xc6e00bf3, 0xd5a79147, 0x06ca6351, 0x14292967,
  0x27b70a85, 0x2e1b2138, 0x4d2c6dfc, 0x53380d13, 0x650a7354, 0x766a0abb, 0x81c2c92e, 0x92722c85,
  0xa2bfe8a1, 0xa81a664b, 0xc24b8b70, 0xc76c51a3, 0xd192e819, 0xd6990624, 0xf40e3585, 0x106aa070,
  0x19a4c116, 0x1e376c08, 0x2748774c, 0x34b0bcb5, 0x391c0cb3, 0x4ed8aa4a, 0x5b9cca4f, 0x682e6ff3,
  0x748f82ee, 0x78a5636f, 0x84c87814, 0x8cc70208, 0x90befffa, 0xa4506ceb, 0xbef9a3f7, 0xc67178f2]

/-- The sixteen words of a block. -/
def words (block : Block) : List UInt32 :=
  (List.range 16).map fun i =>
    UInt32.ofNat (((block.toList.drop (4 * i)).take 4).foldl (fun n b => 256 * n + b.toNat) 0)

/-- One round for each constant. The window holds the next sixteen words of the
message schedule, and each round extends the schedule by one. -/
def rounds : List UInt32 → List UInt32 → State → State
  | [], _, state => state
  | constant :: constants, window, state =>
      let t1 := state[7] + bigSigma1 state[4] + choose state[4] state[5] state[6] + constant +
        window.getD 0 0
      let t2 := bigSigma0 state[0] + majority state[0] state[1] state[2]
      let next := smallSigma1 (window.getD 14 0) + window.getD 9 0 + smallSigma0 (window.getD 1 0) +
        window.getD 0 0
      rounds constants (window.drop 1 ++ [next])
        #v[t1 + t2, state[0], state[1], state[2], state[3] + t1, state[4], state[5], state[6]]

def compress (state : State) (block : Block) : State :=
  Vector.zipWith (· + ·) state (rounds roundConstants (words block) state)

example : (digest compress [0x61, 0x62, 0x63]).toList =
    [0xba, 0x78, 0x16, 0xbf, 0x8f, 0x01, 0xcf, 0xea, 0x41, 0x41, 0x40, 0xde, 0x5d, 0xae, 0x22, 0x23,
      0xb0, 0x03, 0x61, 0xa3, 0x96, 0x17, 0x7a, 0x9c, 0xb4, 0x10, 0xff, 0x61, 0xf2, 0x00, 0x15,
      0xad] := by
  decide +kernel

end

end Sha256
