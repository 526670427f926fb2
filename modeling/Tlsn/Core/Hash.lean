import Mathlib.Algebra.Group.Nat.Defs
import Mathlib.Data.List.Basic
import Tlsn.Library.Fault

/-!
Hash values, hash algorithms and blinders, with the canonical serialization of a
blinded encoding leaf. A hash algorithm is a parameter: only the length of its
digests is known, and the serializer's limit on the length of a sequence is the
one the source documents.
-/

namespace Tlsn.Core

structure HashAlgId where
  id : UInt8
deriving DecidableEq, Repr

namespace HashAlgId

def sha256 : HashAlgId := ⟨1⟩
def blake3 : HashAlgId := ⟨2⟩
def keccak256 : HashAlgId := ⟨3⟩

def display (alg : HashAlgId) : String :=
  let digits := "0123456789abcdef".toList
  let digit (n : Nat) : String := String.ofList (digits[n]?.toList)
  digit (alg.id.toNat / 16) ++ digit (alg.id.toNat % 16)

def debug (alg : HashAlgId) : String := "HashAlgId(" ++ toString alg.id.toNat ++ ")"

end HashAlgId

/-- Maximum length of a hash value. -/
def maxLen : Nat := 64

structure Hash where
  bytes : List UInt8
  length_le : bytes.length ≤ maxLen
deriving DecidableEq

structure TypedHash where
  alg : HashAlgId
  value : Hash
deriving DecidableEq

/-- A hash algorithm. Every algorithm of the source has digests of one length. -/
structure HashAlgorithm where
  id : HashAlgId
  size : Nat
  hash : List UInt8 → Hash
  length_hash : ∀ data, (hash data).bytes.length = size

inductive HashProviderError where
  | unknown (id : HashAlgId)
deriving DecidableEq

structure HashProvider where
  algs : HashAlgId → Option HashAlgorithm

def HashProvider.get (provider : HashProvider) (id : HashAlgId) :
    Except HashProviderError HashAlgorithm :=
  match provider.algs id with
  | some alg => .ok alg
  | none => .error (.unknown id)

structure CryptoProvider where
  hash : HashProvider

structure Blinder where
  bytes : Vector UInt8 16
deriving DecidableEq

structure Blinded (α : Type) where
  data : α
  blinder : Blinder

/-! ## Canonical serialization -/

/-- Longest sequence the serializer accepts. -/
def maxSequenceLength : Nat := 2 ^ 31 - 1

/-- Variable-length prefix, seven bits to a byte, of a length of at most 32 bits. -/
def uleb128 (n : Nat) : List UInt8 := go 5 n
where
  go : Nat → Nat → List UInt8
    | 0, _ => []
    | fuel + 1, n =>
        if n < 128 then [UInt8.ofNat n] else UInt8.ofNat (n % 128 + 128) :: go fuel (n / 128)

theorem length_uleb128_go_mono (fuel : Nat) {n m : Nat} (h : n ≤ m) :
    (uleb128.go fuel n).length ≤ (uleb128.go fuel m).length := by
  induction fuel generalizing n m with
  | zero => simp [uleb128.go]
  | succ fuel ih =>
      simp only [uleb128.go]
      by_cases hm : m < 128
      · simp [hm, Nat.lt_of_le_of_lt h hm]
      · have hdiv := ih (Nat.div_le_div_right (c := 128) h)
        simp only [hm, if_false, List.length_cons]
        split
        · simp
        · simpa using hdiv

theorem length_uleb128_mono {n m : Nat} (h : n ≤ m) :
    (uleb128 n).length ≤ (uleb128 m).length :=
  length_uleb128_go_mono 5 h

/-- A sequence of bytes, or nothing where the serializer refuses its length. -/
def serializeBytes (data : List UInt8) : Option (List UInt8) :=
  if data.length ≤ maxSequenceLength then some (uleb128 data.length ++ data) else none

structure EncodingLeaf where
  encoding : List UInt8

/-- `CanonicalSerialize::serialize`, which unwraps the serializer's result. -/
def Blinded.serialize {ε : Type} (leaf : Blinded EncodingLeaf) :
    Except (Fault ε) (List UInt8) :=
  match serializeBytes leaf.data.encoding with
  | some bytes => .ok (bytes ++ leaf.blinder.bytes.toList)
  | none => .error .panic

/-- The serialization of a leaf, where there is one. -/
def Blinded.bytes (leaf : Blinded EncodingLeaf) : List UInt8 :=
  uleb128 leaf.data.encoding.length ++ leaf.data.encoding ++ leaf.blinder.bytes.toList

theorem Blinded.serialize_ok_iff {ε : Type} {leaf : Blinded EncodingLeaf} {bytes : List UInt8} :
    (leaf.serialize : Except (Fault ε) _) = .ok bytes ↔
      leaf.data.encoding.length ≤ maxSequenceLength ∧ bytes = leaf.bytes := by
  unfold Blinded.serialize serializeBytes
  by_cases h : leaf.data.encoding.length ≤ maxSequenceLength
  · simp [h, Blinded.bytes, eq_comm]
  · simp [h]

/-- The length prefix fixes where the encoding ends, so no two leaves share a
serialization. -/
theorem Blinded.bytes_inj {a b : Blinded EncodingLeaf} (heq : a.bytes = b.bytes) :
    a.data.encoding = b.data.encoding := by
  have htotal := congrArg List.length heq
  simp only [Blinded.bytes, List.length_append, Vector.length_toList] at htotal
  have hlen : a.data.encoding.length = b.data.encoding.length := by
    rcases Nat.lt_trichotomy a.data.encoding.length b.data.encoding.length with h | h | h
    · have := length_uleb128_mono (Nat.le_of_lt h)
      omega
    · exact h
    · have := length_uleb128_mono (Nat.le_of_lt h)
      omega
  unfold Blinded.bytes at heq
  rw [hlen] at heq
  have h₁ := (List.append_inj' heq (by simp)).1
  exact (List.append_inj h₁ rfl).2

theorem Blinded.le_length_bytes (leaf : Blinded EncodingLeaf) :
    leaf.data.encoding.length + 16 ≤ leaf.bytes.length := by
  simp only [Blinded.bytes, List.length_append, Vector.length_toList]
  omega

def HashAlgorithm.hashCanonical {ε : Type} (alg : HashAlgorithm) (leaf : Blinded EncodingLeaf) :
    Except (Fault ε) Hash :=
  alg.hash <$> leaf.serialize

theorem HashAlgorithm.hashCanonical_ok_iff {ε : Type} {alg : HashAlgorithm}
    {leaf : Blinded EncodingLeaf} {hash : Hash} :
    (alg.hashCanonical leaf : Except (Fault ε) _) = .ok hash ↔
      leaf.data.encoding.length ≤ maxSequenceLength ∧ hash = alg.hash leaf.bytes := by
  unfold HashAlgorithm.hashCanonical
  cases hser : (leaf.serialize : Except (Fault ε) _) with
  | error e =>
      have : ¬ leaf.data.encoding.length ≤ maxSequenceLength := fun h => by
        rw [Blinded.serialize_ok_iff.mpr ⟨h, rfl⟩] at hser
        cases hser
      simp [this, Functor.map, Except.map]
  | ok bytes =>
      obtain ⟨hlen, rfl⟩ := Blinded.serialize_ok_iff.mp hser
      simp [hlen, Functor.map, Except.map, eq_comm]

theorem HashAlgorithm.hashCanonical_error_iff {ε : Type} {alg : HashAlgorithm}
    {leaf : Blinded EncodingLeaf} {e : Fault ε} :
    (alg.hashCanonical leaf : Except (Fault ε) _) = .error e ↔
      maxSequenceLength < leaf.data.encoding.length ∧ e = .panic := by
  by_cases h : leaf.data.encoding.length ≤ maxSequenceLength
  · rw [HashAlgorithm.hashCanonical_ok_iff.mpr ⟨h, rfl⟩]
    simp [Nat.not_lt.mpr h]
  · simp only [HashAlgorithm.hashCanonical, Blinded.serialize, serializeBytes, if_neg h]
    simp [Functor.map, Except.map, Nat.lt_of_not_le h, eq_comm]

end Tlsn.Core
