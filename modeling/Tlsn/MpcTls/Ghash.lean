import Tlsn.Library.PolyHash
import Tlsn.MpcTls.Decode

/-!
GHASH between two parties. Each holds additive shares of the powers of the key,
hashes with them, and the exclusive or of the two results is the hash. The field
and the conversions between shares are parameters: what is used of the field is
that it is a ring in which every element is its own negative, and that blocks are
its elements.
-/

namespace Tlsn.MpcTls

/-- The field of GHASH. The bits of a block are reflected. -/
structure BlockField (F : Type) [CommRing F] where
  ofBlock : Block ≃ F
  ofBlock_xor : ∀ a b, ofBlock (Block.xor a b) = ofBlock a + ofBlock b
  add_self : ∀ x : F, x + x = 0

namespace BlockField

variable {F : Type} [CommRing F]

theorem symm_add (B : BlockField F) (x y : F) : B.ofBlock.symm (x + y) =
    Block.xor (B.ofBlock.symm x) (B.ofBlock.symm y) := by
  rw [Equiv.symm_apply_eq, B.ofBlock_xor, Equiv.apply_symm_apply, Equiv.apply_symm_apply]

/-- Squaring is additive. -/
theorem add_mul_self (B : BlockField F) (x y : F) : (x + y) * (x + y) = x * x + y * y := by
  have hcross := B.add_self (x * y)
  calc (x + y) * (x + y) = x * x + y * y + (x * y + x * y) := by ring
    _ = x * x + y * y := by rw [hcross, add_zero]

end BlockField

/-- Maximum exponent used in GHASH. -/
def maxPower : Nat := 1026

inductive GhashState (F : Type) where
  | init
  | setKey (key : F)
  | ready (shares : List F)
  | error

structure MpcGhash (F : Type) where
  state : GhashState F

/-- What the share converter returns: a multiplicative share of the key, and
additive shares of its odd powers from the third on. -/
structure Conversion (F : Type) where
  multKey : F
  addSharesOdd : List F

namespace MpcGhash

variable {F : Type} [CommRing F]

def new : MpcGhash F := ⟨.init⟩

/-- The powers from `acc` on, `n` of them. -/
def powers (key : F) : F → Nat → List F
  | _, 0 => []
  | acc, n + 1 => acc :: powers key (acc * key) n

def stepBy2 : List F → List F
  | [] => []
  | [x] => [x]
  | x :: _ :: xs => x :: stepBy2 xs

/-- The odd powers of the multiplicative key share, from the third on. -/
def oddShares (multKey : F) : List F := stepBy2 ((powers multKey multKey maxPower).drop 2)

/-- One turn of the loop over the powers: the share of an even power is the square
of the share of its root, that of an odd power is given. -/
def computeShare (oddPowers : List F) (acc : List F × Nat) (i : Nat) :
    Except (Fault GhashError) (List F × Nat) :=
  if i % 2 = 0 then
    match acc.1[i / 2 - 1]? with
    | some base => .ok (acc.1 ++ [base * base], acc.2)
    | none => .error .panic
  else
    match oddPowers[acc.2]? with
    | some share => .ok (acc.1 ++ [share], acc.2 + 1)
    | none => .error .panic

/-- Shares of the powers, from a share of the key and shares of its odd powers. -/
def computeShares (key : F) (oddPowers : List F) : Except (Fault GhashError) (List F) := do
  let acc ← (List.range' 2 (maxPower - 1)).foldlM (computeShare oddPowers) ([key], 0)
  return acc.1

def setKey (B : BlockField F) (key : List UInt8) : EStateM (Fault GhashError) (MpcGhash F) Unit :=
  fun ghash =>
    if key.length ≠ 16 then .error (.err (.keyLength 16 key.length)) ghash
    else
      match ghash.state with
      | .init => .ok () ⟨.setKey (B.ofBlock (Block.ofBytes key))⟩
      | _ => .error (.err (.state "Key already set")) ⟨.error⟩

def setup (conversion : Conversion F) : EStateM (Fault GhashError) (MpcGhash F) Unit :=
  fun ghash =>
    match ghash.state with
    | .setKey key =>
        match computeShares key conversion.addSharesOdd with
        | .ok shares => .ok () ⟨.ready shares⟩
        | .error e => .error e ⟨.error⟩
    | _ => .error (.err (.state "cannot setup before key is set")) ⟨.error⟩

/-- The `i`-th block of the input, padded with zeroes. -/
def blockAt (input : List UInt8) (i : Nat) : Block := Block.ofBytes (input.drop (16 * i))

/-- The input in blocks. -/
def blocksOf (input : List UInt8) : List Block :=
  (List.range (divCeil input.length 16)).map (blockAt input)

def compute (B : BlockField F) (ghash : MpcGhash F) (input : List UInt8) :
    Except (Fault GhashError) (List UInt8) :=
  match ghash.state with
  | .ready shares =>
      let blockCount := divCeil input.length 16
      if blockCount > maxPower then .error (.err (.inputLength blockCount (maxPower * 16)))
      else
        let blocks := blocksOf input
        let offset := wrapSub shares.length blocks.length
        let tag := dotFold (blocks.map B.ofBlock) (shares.reverse.drop offset)
        .ok (B.ofBlock.symm tag).toList
  | _ => .error (.err (.state "key shares are not computed"))

end MpcGhash

/-- GHASH with its key shares, which computes a party's share of a hash. -/
structure Ghash where
  compute : List UInt8 → Except (Fault GhashError) (List UInt8)

/-- Sets the key share and sets up. -/
def MpcGhash.prepare {F : Type} [CommRing F] (B : BlockField F) (conversion : Conversion F)
    (key : List UInt8) : Except (Fault GhashError) Ghash :=
  match setKey B key new with
  | .error e _ => .error e
  | .ok _ ghash =>
      match setup conversion ghash with
      | .error e _ => .error e
      | .ok _ ghash => .ok ⟨compute B ghash⟩

/-- `resize` to a multiple of 16 bytes. -/
def padBlocks (bytes : List UInt8) : List UInt8 :=
  bytes ++ List.replicate (divCeil bytes.length 16 * 16 - bytes.length) 0

/-- Builds padded data for GHASH. -/
def buildGhashData (aad ciphertext : List UInt8) : List UInt8 :=
  let associatedDataBitlen := wrap (aad.length * 8)
  let textBitlen := wrap (ciphertext.length * 8)
  let lenBlock := associatedDataBitlen * 2 ^ 64 + textBitlen
  padBlocks aad ++ padBlocks ciphertext ++ beBytes 16 lenBlock

end Tlsn.MpcTls
