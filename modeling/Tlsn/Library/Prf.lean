import Tlsn.Library.Bytes

/-!
Message authentication by a hash with blocks of 64 bytes, and the pseudorandom
function TLS 1.2 makes of it. The data expansion is an unbounded sequence of bytes,
of which a caller takes as many as it needs.
-/

namespace Prf

def ascii (s : String) : List UInt8 := s.toList.map fun c => UInt8.ofNat c.toNat

section

variable {L : Nat}

/-- The key as one block. A key longer than a block is hashed first. -/
def hmacKey (hash : List UInt8 → Vector UInt8 L) (key : List UInt8) : List UInt8 :=
  let short := if key.length ≤ 64 then key else (hash key).toList
  short ++ List.replicate (64 - short.length) 0

def hmac (hash : List UInt8 → Vector UInt8 L) (key msg : List UInt8) : Vector UInt8 L :=
  let block := hmacKey hash key
  hash (xorBytes block (List.replicate 64 0x5c) ++
    (hash (xorBytes block (List.replicate 64 0x36) ++ msg)).toList)

theorem hmacKey_of_le (hash : List UInt8 → Vector UInt8 L) {key : List UInt8}
    (h : key.length ≤ 64) :
    hmacKey hash key = key ++ List.replicate (64 - key.length) 0 := by
  simp [hmacKey, h]

variable [NeZero L] (mac : List UInt8 → Vector UInt8 L) (seed : List UInt8)

/-- `A(i)`. -/
def chain : Nat → List UInt8
  | 0 => seed
  | i + 1 => (mac (chain i)).toList

/-- The blocks `HMAC_hash(secret, A(i + 1) + seed)`, one after the other. -/
def expansion (j : Nat) : UInt8 :=
  (mac (chain mac seed (j / L + 1) ++ seed)).get ⟨j % L, Nat.mod_lt j (NeZero.pos L)⟩

/-- The first bytes of the expansion. -/
def pHash (n : Nat) : List UInt8 := (List.range n).map (expansion mac seed)

@[simp] theorem length_pHash (n : Nat) : (pHash mac seed n).length = n := by simp [pHash]

theorem take_pHash (n m : Nat) : (pHash mac seed m).take n = pHash mac seed (min n m) := by
  rw [pHash, pHash, ← List.map_take, List.take_range]

theorem pHash_add (n m : Nat) :
    pHash mac seed (n + m) =
      pHash mac seed n ++ (List.range m).map fun j => expansion mac seed (n + j) := by
  rw [pHash, List.range_add, List.map_append, List.map_map]
  rfl

/-- A whole block of the expansion. -/
theorem map_expansion (i : Nat) :
    ((List.range L).map fun j => expansion mac seed (i * L + j)) =
      (mac (chain mac seed (i + 1) ++ seed)).toList := by
  have hpos := NeZero.pos L
  apply List.ext_getElem
  · simp
  · intro j hj _
    have hlt : j < L := by simpa using hj
    have hdiv : (i * L + j) / L = i := by
      rw [Nat.mul_comm, Nat.mul_add_div hpos, Nat.div_eq_of_lt hlt, Nat.add_zero]
    have hmod : (i * L + j) % L = j := by
      rw [Nat.mul_comm, Nat.mul_add_mod, Nat.mod_eq_of_lt hlt]
    simp only [List.getElem_map, List.getElem_range, expansion, Vector.getElem_toList]
    simp only [hdiv, hmod]
    rfl

/-- The expansion goes on with the next block, of which a part may do. -/
theorem pHash_block (i : Nat) {m : Nat} (h : m ≤ L) :
    pHash mac seed (i * L + m) =
      pHash mac seed (i * L) ++ (mac (chain mac seed (i + 1) ++ seed)).toList.take m := by
  rw [pHash_add, ← map_expansion, ← List.map_take, List.take_range, Nat.min_eq_left h]

end

section

variable {L : Nat} [NeZero L] (hash : List UInt8 → Vector UInt8 L)

/-- `PRF(secret, label, seed)`, the first `n` bytes. -/
def prf (secret label seed : List UInt8) (n : Nat) : List UInt8 :=
  pHash (hmac hash secret) (label ++ seed) n

def masterSecret (preMasterSecret clientRandom serverRandom : List UInt8) : List UInt8 :=
  prf hash preMasterSecret (ascii "master secret") (clientRandom ++ serverRandom) 48

end

/-- The security parameters of a connection which the key block depends on. -/
structure KeyLengths where
  mac : Nat
  enc : Nat
  fixedIv : Nat

@[ext] structure KeyBlock where
  clientWriteMacKey : List UInt8
  serverWriteMacKey : List UInt8
  clientWriteKey : List UInt8
  serverWriteKey : List UInt8
  clientWriteIv : List UInt8
  serverWriteIv : List UInt8

namespace KeyLengths

def total (k : KeyLengths) : Nat := 2 * (k.mac + k.enc + k.fixedIv)

/-- The key block is partitioned in the order of the fields. -/
def partition (k : KeyLengths) (block : List UInt8) : KeyBlock where
  clientWriteMacKey := block.take k.mac
  serverWriteMacKey := (block.drop k.mac).take k.mac
  clientWriteKey := (block.drop (2 * k.mac)).take k.enc
  serverWriteKey := (block.drop (2 * k.mac + k.enc)).take k.enc
  clientWriteIv := (block.drop (2 * (k.mac + k.enc))).take k.fixedIv
  serverWriteIv := (block.drop (2 * (k.mac + k.enc) + k.fixedIv)).take k.fixedIv

end KeyLengths

/-- The keys derived from a master secret. -/
def keyBlock {L : Nat} [NeZero L] (hash : List UInt8 → Vector UInt8 L) (k : KeyLengths)
    (master clientRandom serverRandom : List UInt8) : KeyBlock :=
  k.partition (prf hash master (ascii "key expansion") (serverRandom ++ clientRandom) k.total)

end Prf
